import RegisterTransfer.Proofs.Definedness
import RegisterTransfer.Proofs.Execution
import RegisterTransfer.TailCall.Transform
set_option autoImplicit false

/-!
# Converted programs

What a converted program has at each name and each point: the same functions, with the same
instructions, except for the calls that became tail calls.  A converted program is well formed.
-/

namespace RegisterTransfer

/-! ## Code -/

namespace Code

theorem at?_mapInstrs (f : Point → Instr → Instr) (c : Code) (pc : Point) :
    (c.mapInstrs f).at? pc = (c.at? pc).map (f pc) := by
  simp only [mapInstrs, at?, Array.getElem?_mapIdx, UInt32.ofNat_toNat]
  cases c.slots[pc.toNat]? <;> rfl

theorem mem_lines_iff {c : Code} {pc : Point} {i : Instr} :
    (pc, i) ∈ c.lines ↔ ∃ n, c.slots[n]? = some (some i) ∧ pc = UInt32.ofNat n := by
  simp only [lines, List.mem_filterMap, Prod.exists, List.mem_zipIdx_iff_getElem?,
    Option.map_eq_some_iff, Prod.mk.injEq, Array.getElem?_toList]
  constructor
  · rintro ⟨slot, n, hslot, j, rfl, rfl, rfl⟩
    exact ⟨n, hslot, rfl⟩
  · rintro ⟨n, hslot, rfl⟩
    exact ⟨some i, n, hslot, i, rfl, rfl, rfl⟩

theorem mem_lines_of_at? {c : Code} {pc : Point} {i : Instr} (h : c.at? pc = some i) :
    (pc, i) ∈ c.lines := by
  rw [mem_lines_iff]
  exact ⟨pc.toNat, Option.join_eq_some_iff.mp h, UInt32.ofNat_toNat.symm⟩

/-- Replaced instructions stand in the same lines. -/
theorem lines_mapInstrs (f : Point → Instr → Instr) (c : Code) :
    (c.mapInstrs f).lines = c.lines.map fun e => (e.1, f e.1 e.2) := by
  have hzip : (c.mapInstrs f).slots.toList.zipIdx
      = c.slots.toList.zipIdx.map fun e => (e.1.map (f (UInt32.ofNat e.2)), e.2) := by
    apply List.ext_getElem?
    intro n
    simp only [mapInstrs, Array.toList_mapIdx, List.getElem?_zipIdx, List.getElem?_mapIdx,
      List.getElem?_map, Option.map_map, Nat.zero_add]
    rfl
  rw [lines, hzip, lines, List.filterMap_map, List.map_filterMap]
  congr 1
  funext e
  obtain ⟨slot, n⟩ := e
  cases slot <;> rfl

theorem mem_lines_mapInstrs {f : Point → Instr → Instr} {c : Code} {pc : Point} {i : Instr} :
    (pc, i) ∈ (c.mapInstrs f).lines ↔ ∃ j, (pc, j) ∈ c.lines ∧ i = f pc j := by
  simp only [lines_mapInstrs, List.mem_map, Prod.exists, Prod.mk.injEq]
  constructor
  · rintro ⟨pc, j, hj, rfl, rfl⟩
    exact ⟨j, hj, rfl⟩
  · rintro ⟨j, hj, rfl⟩
    exact ⟨pc, j, hj, rfl, rfl⟩

@[simp] theorem size_mapInstrs (f : Point → Instr → Instr) (c : Code) :
    (c.mapInstrs f).size = c.size :=
  Array.size_mapIdx

/-! ### Numbered slots -/

theorem size_set (c : Code) (pc : Point) (i : Instr) :
    (c.set pc i).size = max c.size (pc.toNat + 1) := by
  unfold set size
  split
  · rw [Array.set!_eq_setIfInBounds, Array.size_setIfInBounds]
    omega
  · simp only [Array.size_push, Array.size_append, Array.size_replicate]
    omega

/-- Code all of whose slots are numbered by points.  Code that is made by putting instructions at
points is numbered. -/
def Numbered (c : Code) : Prop := c.size ≤ 4294967296

theorem numbered_empty : Numbered ∅ := Nat.zero_le _

namespace Numbered

variable {c : Code}

theorem set (h : c.Numbered) (pc : Point) (i : Instr) : (c.set pc i).Numbered := by
  have hpc : pc.toNat < 4294967296 := pc.toNat_lt
  unfold Numbered at h ⊢
  rw [size_set]
  omega

theorem mapInstrs (h : c.Numbered) (f : Point → Instr → Instr) : (c.mapInstrs f).Numbered := by
  unfold Numbered
  rw [size_mapInstrs]
  exact h

theorem toNat_ofNat (h : c.Numbered) {n : Nat} (hn : n < c.size) :
    (UInt32.ofNat n).toNat = n := by
  unfold Numbered at h
  rw [UInt32.toNat_ofNat']
  omega

theorem mem_lines_iff_at? (h : c.Numbered) {pc : Point} {i : Instr} :
    (pc, i) ∈ c.lines ↔ c.at? pc = some i := by
  refine ⟨fun hmem => ?_, mem_lines_of_at?⟩
  obtain ⟨n, hn, rfl⟩ := mem_lines_iff.mp hmem
  rw [at?, h.toNat_ofNat (Array.getElem?_eq_some_iff.mp hn).1, hn]
  rfl

/-- The points of the lines increase. -/
theorem pairwise_points (h : c.Numbered) : c.points.Pairwise (· < ·) := by
  have hindices : c.slots.toList.zipIdx.Pairwise fun a b => a.2 < b.2 := by
    have hrange : (c.slots.toList.zipIdx.map (·.2)).Pairwise (· < ·) := by
      rw [List.zipIdx_map_snd]
      exact List.pairwise_lt_range'
    exact List.pairwise_map.mp hrange
  rw [points, List.pairwise_map, lines, List.pairwise_filterMap]
  refine hindices.imp_of_mem ?_
  intro a b ha hb hlt e he e' he'
  have hsize : ∀ x ∈ c.slots.toList.zipIdx, x.2 < c.size := by
    intro x hx
    simpa [size] using List.snd_lt_of_mem_zipIdx hx
  obtain ⟨_, -, rfl⟩ := Option.map_eq_some_iff.mp he
  obtain ⟨_, -, rfl⟩ := Option.map_eq_some_iff.mp he'
  rw [UInt32.lt_iff_toNat_lt, h.toNat_ofNat (hsize a ha), h.toNat_ofNat (hsize b hb)]
  exact hlt

end Numbered

end Code

/-! ## Functions -/

namespace Function

variable {f : Function} {rule : Rule} {i : Instr}

@[simp] theorem name_transform (f : Function) (rule : Rule) : (f.transform rule).name = f.name := rfl

@[simp] theorem sig_transform (f : Function) (rule : Rule) : (f.transform rule).sig = f.sig := rfl

@[simp] theorem stackSize_transform (f : Function) (rule : Rule) :
    (f.transform rule).stackSize = f.stackSize := rfl

@[simp] theorem entry_transform (f : Function) (rule : Rule) :
    (f.transform rule).entry = f.entry := rfl

theorem at?_transform (f : Function) (rule : Rule) (pc : Point) :
    (f.transform rule).code.at? pc = (f.code.at? pc).map (f.convert rule) :=
  Code.at?_mapInstrs _ _ pc

/-- A call has no obstacle if its function has no stack, the calling convention lets the callee
reuse the frame, and what follows the call does nothing but return its result. -/
theorem obstacle?_eq_none_iff {sig : Signature} {dest : Reg} {succ : Point} :
    f.obstacle? rule sig dest succ = none ↔
      f.stackSize = 0 ∧ rule.abi sig f.sig = true ∧ f.code.isReturn succ dest rule.bound = true := by
  unfold obstacle?
  split
  · rename_i hstack
    simp [hstack]
  · rename_i hstack
    rw [not_not] at hstack
    split
    · simp_all
    · split <;> simp_all

/-- An instruction stays as it is, or is a call that becomes a tail call. -/
theorem convert_cases (f : Function) (rule : Rule) (i : Instr) :
    f.convert rule i = i ∨
      ∃ sig callee args dest succ, i = .call sig callee args dest succ ∧
        f.convert rule i = .tailcall sig callee args ∧ f.stackSize = 0 ∧
        f.code.isReturn succ dest rule.bound := by
  unfold convert
  split
  · split
    · rename_i sig callee args dest succ hnone
      obtain ⟨hstack, -, hreturn⟩ := obstacle?_eq_none_iff.mp (Option.isNone_iff_eq_none.mp hnone)
      exact .inr ⟨sig, callee, args, dest, succ, rfl, rfl, hstack, hreturn⟩
    · exact .inl rfl
  · exact .inl rfl

end Function

/-! ## Programs -/

namespace Program

variable {p q : Program} {rule : Rule} {c : Config} {abi : Abi}

@[simp] theorem main_mapTransform (p : Program) (rule : Rule) :
    (p.mapTransform rule).main = p.main := rfl

theorem get?_mapTransform (p : Program) (rule : Rule) (name : String) :
    (p.mapTransform rule).functions.get? name
      = (p.functions.get? name).map (Option.map (·.transform rule)) :=
  FinMap.get?_map _ _ _

theorem function?_mapTransform (p : Program) (rule : Rule) (name : String) :
    (p.mapTransform rule).function? name = (p.function? name).map (·.transform rule) := by
  simp only [function?, get?_mapTransform]
  cases p.functions.get? name <;> rfl

theorem transform_eq_ok_iff :
    p.transform c abi = .ok q ↔
      c.error? = none ∧ p.malformed? = none ∧ q = p.mapTransform ⟨c.bound, abi⟩ := by
  unfold transform refusal?
  cases c.error? with
  | some e => simp
  | none => cases p.malformed? <;> simp [eq_comm]

theorem error?_eq_none_iff :
    c.error? = none ↔ 0 ≤ c.bound ∧ 0 ≤ c.maxRegArgs ∧ 0 ≤ c.workers := by
  unfold Config.error?
  repeat' split
  all_goals simp only [reduceCtorEq, true_iff, false_iff]; omega

theorem bound_nonneg (h : c.error? = none) : 0 ≤ c.bound :=
  (error?_eq_none_iff.mp h).1

end Program

/-! ## Callees -/

theorem Program.callable_eq_ok_iff {p : Program} {sig : Signature} {name name' : String} :
    p.callable sig name' = .ok name ↔
      name' = name ∧ ∀ f, p.function? name = some f → f.sig = sig := by
  unfold callable
  cases hf : p.function? name' with
  | none =>
    simp only [Except.ok.injEq, iff_self_and]
    rintro rfl f hf'
    rw [hf] at hf'
    cases hf'
  | some f =>
    simp only
    split
    · rename_i hsig
      simp only [Except.ok.injEq, iff_self_and]
      rintro rfl f' hf'
      cases hf.symm.trans hf'
      exact hsig
    · rename_i hsig
      simp only [reduceCtorEq, false_iff]
      rintro ⟨rfl, h⟩
      exact hsig (h f hf)

namespace Callee

/-- The name that a callee gives, whether or not there is a function of that name. -/
def name? (regs : Registers) : Callee → Option String
  | .symbol name => some name
  | .register r =>
    match regs.get r with
    | .func name => some name
    | _ => none

theorem resolve_eq_ok_iff {p : Program} {regs : Registers} {sig : Signature} {callee : Callee}
    {name : String} :
    callee.resolve p regs sig = .ok name ↔
      callee.name? regs = some name ∧ ∀ f, p.function? name = some f → f.sig = sig := by
  cases callee with
  | symbol symbol => simp [resolve, name?, Program.callable_eq_ok_iff]
  | register r =>
    cases hr : regs.get r with
    | func symbol => simp [resolve, name?, hr, Program.callable_eq_ok_iff]
    | _ => simp [resolve, name?, hr]

theorem name?_lessDefined {regs regs' : Registers} {callee : Callee} {name : String}
    (hregs : regs.lessDefined regs') (h : callee.name? regs = some name) :
    callee.name? regs' = some name := by
  cases callee with
  | symbol symbol => exact h
  | register r =>
    have hget := Registers.lessDefined_iff.mp hregs r
    simp only [name?] at h ⊢
    split at h
    · rename_i symbol hsymbol
      rw [hsymbol] at hget
      rw [Val.eq_of_lessDefined hget (by simp [Val.read])]
      exact h
    · cases h

/-- A callee gives the same function where the registers are more defined. -/
theorem resolve_lessDefined {p : Program} {regs regs' : Registers} {sig : Signature}
    {callee : Callee} {name : String} (hregs : regs.lessDefined regs')
    (h : callee.resolve p regs sig = .ok name) : callee.resolve p regs' sig = .ok name := by
  rw [resolve_eq_ok_iff] at h ⊢
  exact ⟨name?_lessDefined hregs h.1, h.2⟩

/-- A callee gives the same function of the converted program, whose registers may be more
defined. -/
theorem resolve_mapTransform {p : Program} (rule : Rule) {regs regs' : Registers}
    {sig : Signature} {callee : Callee} {name : String} (hregs : regs.lessDefined regs')
    (h : callee.resolve p regs sig = .ok name) :
    callee.resolve (p.mapTransform rule) regs' sig = .ok name := by
  rw [resolve_eq_ok_iff] at h ⊢
  refine ⟨name?_lessDefined hregs h.1, fun f' hf' => ?_⟩
  rw [Program.function?_mapTransform] at hf'
  obtain ⟨f, hf, rfl⟩ := Option.map_eq_some_iff.mp hf'
  exact h.2 f hf

end Callee

/-! ## Well-formedness -/

namespace Instr

theorem defect?_eq_none_iff {code : Code} {i : Instr} :
    i.defect? code = none ↔
      (∀ s ∈ i.successors, code.at? s ≠ none) ∧ i.argumentDefect? = none := by
  unfold defect?
  split
  · rename_i s hs
    have hnone := List.find?_some hs
    have hmem := List.mem_of_find?_eq_some hs
    simp only [reduceCtorEq, false_iff]
    rintro ⟨hsuccessors, _⟩
    exact hsuccessors s hmem (Option.isNone_iff_eq_none.mp hnone)
  · rename_i hs
    simp_all

end Instr

namespace Function

theorem malformed?_eq_none_iff {f : Function} :
    f.malformed? = none ↔
      0 ≤ f.stackSize ∧ f.params.length = f.sig.args.length ∧ f.code.at? f.entry ≠ none ∧
        ∀ pc i, (pc, i) ∈ f.code.lines → i.defect? f.code = none := by
  unfold malformed?
  split
  · rename_i hstack
    simp [Int64.not_le.mpr hstack]
  · rename_i hstack
    split
    · rename_i hparams
      simp [hparams]
    · rename_i hparams
      split
      · simp_all
      · simp_all

/-- A converted instruction has the same arguments, and successors among the same. -/
theorem defect?_convert {f : Function} {rule : Rule} {i : Instr} (h : i.defect? f.code = none) :
    (f.convert rule i).defect? (f.transform rule).code = none := by
  rw [Instr.defect?_eq_none_iff] at h ⊢
  obtain ⟨hsuccessors, harguments⟩ := h
  rcases f.convert_cases rule i with heq | ⟨sig, callee, args, dest, succ, rfl, heq, _⟩
  · rw [heq]
    refine ⟨fun s hs => ?_, harguments⟩
    simpa [at?_transform] using hsuccessors s hs
  · rw [heq]
    refine ⟨by simp [Instr.successors], ?_⟩
    simpa [Instr.argumentDefect?, Instr.countDefect?] using harguments

theorem malformed?_transform {f : Function} (rule : Rule) (h : f.malformed? = none) :
    (f.transform rule).malformed? = none := by
  rw [malformed?_eq_none_iff] at h ⊢
  obtain ⟨hstack, hparams, hentry, hlines⟩ := h
  refine ⟨hstack, hparams, by simpa [at?_transform] using hentry, fun pc i hmem => ?_⟩
  obtain ⟨j, hj, rfl⟩ := Code.mem_lines_mapInstrs.mp hmem
  exact defect?_convert (hlines pc j hj)

end Function

namespace Program

theorem malformed?_eq_none_iff {p : Program} :
    p.malformed? = none ↔
      p.functions.get? p.main ≠ none ∧
        ∀ name entry, p.functions.get? name = some entry →
          ∃ f, entry = some f ∧ f.name = name ∧ f.malformed? = none := by
  have hentry : ∀ name entry, entryMalformed? name entry = none ↔
      ∃ f, entry = some f ∧ f.name = name ∧ f.malformed? = none := by
    intro name entry
    cases entry with
    | none => simp [entryMalformed?]
    | some f =>
      simp only [entryMalformed?]
      split <;> simp_all
  unfold malformed?
  split
  · rename_i hmain
    simp_all [FinMap.contains, Option.isSome_iff_ne_none, FinMap.get?_eq_some_iff_mem]
  · rename_i hmain
    simp_all [FinMap.contains]

/-- A converted program is well formed. -/
theorem malformed?_mapTransform {p : Program} (rule : Rule) (h : p.malformed? = none) :
    (p.mapTransform rule).malformed? = none := by
  rw [malformed?_eq_none_iff] at h ⊢
  obtain ⟨hmain, hfunctions⟩ := h
  simp only [get?_mapTransform]
  refine ⟨by simpa using hmain, fun name entry hentry => ?_⟩
  obtain ⟨entry', hentry', rfl⟩ := Option.map_eq_some_iff.mp hentry
  obtain ⟨f, rfl, hname, hf⟩ := hfunctions name entry' hentry'
  exact ⟨f.transform rule, rfl, hname, Function.malformed?_transform rule hf⟩

/-! ## A program with calls to convert -/

/-- A program in which `main` calls `f`, which calls `g`, which calls the external function `h`.
The calls of `f` and `g` are followed by epilogues; `main` has a stack block. -/
def relay : Program where
  main := "main"
  functions := .ofList [
    ("main", some ⟨"main", ⟨[], .int, false⟩, [], 8, 0, ⟨#[
      some (.call ⟨[], .int, false⟩ (.symbol "f") [] 1 1),
      some (.ret (some 1))]⟩⟩),
    ("f", some ⟨"f", ⟨[], .int, false⟩, [], 0, 0, ⟨#[
      some (.call ⟨[], .int, false⟩ (.symbol "g") [] 1 1),
      some (.nop 2),
      some (.op .move [1] 2 3),
      some (.ret (some 2))]⟩⟩),
    ("g", some ⟨"g", ⟨[], .int, false⟩, [], 0, 0, ⟨#[
      some (.op (.intConst 5) [] 1 1),
      some (.call ⟨[.int], .int, false⟩ (.symbol "h") [1] 2 2),
      some (.ret (some 2))]⟩⟩)]

/-- The program with the calls of `f` and `g` made as tail calls. -/
def relayConverted : Program := relay.mapTransform Config.standard.rule

theorem transform_relay : relay.transform .standard Config.standard.abi = .ok relayConverted :=
  transform_eq_ok_iff.mpr ⟨rfl, by decide +kernel, rfl⟩

end Program

end RegisterTransfer
