import RegisterTransfer.Proofs.Conversion
import RegisterTransfer.Proofs.EpiloguePaths
import RegisterTransfer.TailCall.Converted
set_option autoImplicit false

/-!
# Which calls are converted

A call is in tail position if its function has no stack block, the calling convention lets the
callee reuse the frame, and an epilogue of its result follows within the bound.  The conversion
changes these calls and nothing else, and the converted calls that are found by comparing the two
programs are exactly these, each once and in the order of their points
(`Program.transform_converts_exactly`).
-/

namespace RegisterTransfer

/-! ## Calls in tail position -/

namespace Function

variable {f : Function} {rule : Rule} {pc : Point} {sig : Signature} {callee : Callee}
variable {args : List Reg}

/-- At a point stands a call that can become a tail call. -/
structure TailPosition (f : Function) (rule : Rule) (pc : Point) (sig : Signature)
    (callee : Callee) (args : List Reg) : Prop where
  stackSize : f.stackSize = 0
  abi : rule.abi sig f.sig = true
  call : ∃ dest succ points, f.code.at? pc = some (.call sig callee args dest succ) ∧
    f.code.Epilogue succ dest points ∧ (points.length : Int) ≤ rule.bound

theorem tailPosition_iff :
    f.TailPosition rule pc sig callee args ↔
      ∃ dest succ, f.code.at? pc = some (.call sig callee args dest succ) ∧
        f.obstacle? rule sig dest succ = none := by
  simp only [obstacle?_eq_none_iff, Code.isReturn_iff_epilogue]
  constructor
  · rintro ⟨hstack, habi, dest, succ, points, hat, hepilogue, hlength⟩
    exact ⟨dest, succ, hat, hstack, habi, points, hepilogue, hlength⟩
  · rintro ⟨dest, succ, hat, hstack, habi, points, hepilogue, hlength⟩
    exact ⟨hstack, habi, dest, succ, points, hat, hepilogue, hlength⟩

/-- The calls in tail position are the eligible ones. -/
theorem eligible_iff :
    f.eligible rule pc = true ↔ ∃ sig callee args, f.TailPosition rule pc sig callee args := by
  simp only [tailPosition_iff]
  unfold eligible
  split
  · rename_i sig callee args dest succ hat
    rw [Option.isNone_iff_eq_none]
    constructor
    · intro hnone
      exact ⟨sig, callee, args, dest, succ, hat, hnone⟩
    · rintro ⟨sig, callee, args, dest, succ, hat', hnone⟩
      cases hat.symm.trans hat'
      exact hnone
  · rename_i hother
    simp only [Bool.false_eq_true, false_iff]
    rintro ⟨sig, callee, args, dest, succ, hat, -⟩
    exact hother sig callee args dest succ hat

theorem TailPosition.at?_transform (h : f.TailPosition rule pc sig callee args) :
    (f.transform rule).code.at? pc = some (.tailcall sig callee args) := by
  obtain ⟨dest, succ, hat, hnone⟩ := tailPosition_iff.mp h
  simp [Function.at?_transform, hat, convert, hnone]

/-- Everything but the calls in tail position stays as it is. -/
theorem at?_transform_eq_or (f : Function) (rule : Rule) (pc : Point) :
    (f.transform rule).code.at? pc = f.code.at? pc ∨
      ∃ sig callee args, f.TailPosition rule pc sig callee args := by
  rw [Function.at?_transform]
  cases hat : f.code.at? pc with
  | none => exact .inl rfl
  | some i =>
    rw [Option.map_some]
    unfold convert
    split
    · rename_i sig callee args dest succ
      split
      · rename_i hnone
        exact .inr ⟨sig, callee, args, tailPosition_iff.mpr
          ⟨dest, succ, hat, Option.isNone_iff_eq_none.mp hnone⟩⟩
      · exact .inl rfl
    · exact .inl rfl

/-- The calls in tail position are those in whose place the converted function has a tail call. -/
theorem tailPosition_iff_at?_transform :
    f.TailPosition rule pc sig callee args ↔
      (∃ dest succ, f.code.at? pc = some (.call sig callee args dest succ)) ∧
        (f.transform rule).code.at? pc = some (.tailcall sig callee args) := by
  constructor
  · intro h
    obtain ⟨dest, succ, _, hat, _⟩ := h.call
    exact ⟨⟨dest, succ, hat⟩, h.at?_transform⟩
  · rintro ⟨⟨dest, succ, hat⟩, htail⟩
    rcases at?_transform_eq_or f rule pc with hsame | ⟨sig', callee', args', h⟩
    · rw [hsame, hat] at htail
      cases htail
    · cases htail.symm.trans h.at?_transform
      exact h

end Function

/-! ## Tail calls and their number -/

/-- Whether an instruction is a call that comes back. -/
def Instr.isCall : Instr → Bool
  | .call .. => true
  | _ => false

/-- Whether an instruction is a tail call. -/
def Instr.isTailcall : Instr → Bool
  | .tailcall .. => true
  | _ => false

theorem Instr.isCall_iff {i : Instr} :
    i.isCall = true ↔ ∃ sig callee args dest succ, i = .call sig callee args dest succ := by
  cases i <;> simp [isCall]

theorem Instr.isTailcall_iff {i : Instr} :
    i.isTailcall = true ↔ ∃ sig callee args, i = .tailcall sig callee args := by
  cases i <;> simp [isTailcall]

/-- The number of tail calls in some code. -/
def Code.tailcalls (c : Code) : Nat := c.lines.countP (·.2.isTailcall)

/-- The number of tail calls in the functions of a program. -/
def Program.tailcalls (p : Program) : Nat := (p.definitions.map (·.code.tailcalls)).sum

/-- An instruction is a tail call after the conversion if it is converted or was one before, but not
both. -/
theorem Function.isTailcall_convert (f : Function) (rule : Rule) (i : Instr) :
    (if i.isCall && (f.convert rule i).isTailcall then 1 else 0) + (if i.isTailcall then 1 else 0)
      = if (f.convert rule i).isTailcall then 1 else 0 := by
  rcases f.convert_cases rule i with heq | ⟨sig, callee, args, dest, succ, rfl, heq, -⟩
  · rw [heq]
    cases i <;> rfl
  · rw [heq]
    rfl

/-! ## Comparing two codes -/

namespace Converted

variable {c d : Code} {f : Function} {rule : Rule} {pc : Point}

theorem points_eq (c d : Code) :
    points c d =
      c.points.filter fun pc => (c.at? pc).any Instr.isCall && (d.at? pc).any Instr.isTailcall := by
  unfold points
  refine List.filter_congr fun pc _ => ?_
  cases c.at? pc with
  | none => rfl
  | some i =>
    cases d.at? pc with
    | none => cases i <;> rfl
    | some j => cases i <;> cases j <;> rfl

/-- Where points number all slots, what stands at the point of a line is that line's instruction. -/
theorem points_eq_of_numbered (h : c.Numbered) (d : Code) :
    points c d =
      (c.lines.filter fun e => e.2.isCall && (d.at? e.1).any Instr.isTailcall).map (·.1) := by
  rw [points_eq, Code.points, List.filter_map]
  congr 1
  refine List.filter_congr fun e he => ?_
  simp [h.mem_lines_iff_at?.mp he]

theorem mem_points_iff :
    pc ∈ points c d ↔
      ∃ i, c.at? pc = some i ∧ i.isCall = true ∧ (d.at? pc).any Instr.isTailcall = true := by
  simp only [points_eq, List.mem_filter, Bool.and_eq_true, Option.any_eq_true (x := c.at? pc)]
  constructor
  · rintro ⟨_, ⟨i, hat, hcall⟩, htail⟩
    exact ⟨i, hat, hcall, htail⟩
  · rintro ⟨i, hat, hcall, htail⟩
    exact ⟨List.mem_map.mpr ⟨_, Code.mem_lines_of_at? hat, rfl⟩, ⟨i, hat, hcall⟩, htail⟩

theorem pairwise_points (h : c.Numbered) (d : Code) : (points c d).Pairwise (· < ·) := by
  rw [points_eq]
  exact h.pairwise_points.sublist List.filter_sublist

/-- The points at which the code of a function and of its conversion differ are those of the calls
in tail position. -/
theorem mem_points_transform :
    pc ∈ points f.code (f.transform rule).code ↔
      ∃ sig callee args, f.TailPosition rule pc sig callee args := by
  simp only [mem_points_iff, Function.tailPosition_iff_at?_transform, Option.any_eq_true,
    Instr.isTailcall_iff, Instr.isCall_iff]
  constructor
  · rintro ⟨_, hat, ⟨sig, callee, args, dest, succ, rfl⟩, _, htail, sig', callee', args', rfl⟩
    rcases f.at?_transform_eq_or rule pc with hsame | ⟨sig'', callee'', args'', htailPosition⟩
    · rw [hsame, hat] at htail
      cases htail
    · exact ⟨_, _, _, Function.tailPosition_iff_at?_transform.mp htailPosition⟩
  · rintro ⟨sig, callee, args, ⟨dest, succ, hat⟩, htail⟩
    exact ⟨_, hat, ⟨sig, callee, args, dest, succ, rfl⟩, _, htail, sig, callee, args, rfl⟩

/-- The conversion adds as many tail calls to a function as it converts points. -/
theorem length_points_transform (h : f.code.Numbered) (rule : Rule) :
    (points f.code (f.transform rule).code).length + f.code.tailcalls
      = (f.transform rule).code.tailcalls := by
  have hlines : (f.transform rule).code.lines
      = f.code.lines.map fun e => (e.1, f.convert rule e.2) :=
    Code.lines_mapInstrs _ _
  -- What stands at the point of a line after the conversion is the converted line.
  have hpoints : (points f.code (f.transform rule).code).length
      = f.code.lines.countP fun e => e.2.isCall && (f.convert rule e.2).isTailcall := by
    rw [points_eq_of_numbered h, List.length_map, ← List.countP_eq_length_filter]
    refine List.countP_congr fun e he => ?_
    rw [Function.at?_transform, h.mem_lines_iff_at?.mp he]
    rfl
  rw [hpoints, Code.tailcalls, Code.tailcalls, hlines, List.countP_map]
  induction f.code.lines with
  | nil => rfl
  | cons e lines ih =>
    have hline := f.isTailcall_convert rule e.2
    simp only [List.countP_cons, Function.comp_apply]
    omega

/-! ## Comparing two programs -/

variable {p q : Program} {name : String} {pcs : List Point}

/-- A point of the named function is among the converted ones. -/
def Lists (r : Converted) (name : String) (pc : Point) : Prop :=
  ∃ pcs, (name, pcs) ∈ r.sites ∧ pc ∈ pcs

/-- The points of an entry of a table that hold tail calls in `q`, none if the entry has no
definition on both sides. -/
def entryPoints (q : Program) (e : String × Option Function) : List Point :=
  (e.2.bind fun f => (q.function? e.1).map fun g => points f.code g.code).getD []

theorem sites_between (p q : Program) :
    (between p q).sites =
      (p.functions.entries.map fun e => (e.1, entryPoints q e)).filter (!·.2.isEmpty) := by
  unfold between
  induction p.functions.entries with
  | nil => rfl
  | cons e entries ih =>
    obtain ⟨name, entry⟩ := e
    rw [List.filterMap_cons, List.map_cons, List.filter_cons, ← ih]
    cases entry with
    | none => simp [entryPoints]
    | some f =>
      cases hg : q.function? name with
      | none => simp [entryPoints, hg]
      | some g => cases hpoints : points f.code g.code <;> simp [entryPoints, hg, hpoints]

/-- The functions that are listed are those that have converted points, with these. -/
theorem mem_sites_iff :
    (name, pcs) ∈ (between p q).sites ↔
      pcs ≠ [] ∧ ∃ f g, p.function? name = some f ∧ q.function? name = some g ∧
        pcs = points f.code g.code := by
  simp only [sites_between, List.mem_filter, List.mem_map, Prod.exists, Prod.mk.injEq,
    ← FinMap.get?_eq_some_iff_mem, Bool.not_eq_true', List.isEmpty_eq_false_iff]
  rw [and_comm]
  refine and_congr_right fun hne => ?_
  constructor
  · rintro ⟨name, entry, hget, rfl, hpoints⟩
    cases entry with
    | none => exact absurd hpoints.symm hne
    | some f =>
      cases hg : q.function? name with
      | none => simp [entryPoints, hg, hne.symm] at hpoints
      | some g =>
        refine ⟨f, g, Option.join_eq_some_iff.mpr hget, rfl, ?_⟩
        rw [← hpoints, entryPoints, hg]
        rfl
  · rintro ⟨f, g, hf, hg, rfl⟩
    refine ⟨name, some f, Option.join_eq_some_iff.mp hf, rfl, ?_⟩
    rw [entryPoints, hg]
    rfl

theorem lists_between_iff :
    (between p q).Lists name pc ↔
      ∃ f g, p.function? name = some f ∧ q.function? name = some g ∧
        pc ∈ points f.code g.code := by
  simp only [Lists, mem_sites_iff]
  constructor
  · rintro ⟨_, ⟨-, f, g, hf, hg, rfl⟩, hpc⟩
    exact ⟨f, g, hf, hg, hpc⟩
  · rintro ⟨f, g, hf, hg, hpc⟩
    exact ⟨_, ⟨List.ne_nil_of_mem hpc, f, g, hf, hg, rfl⟩, hpc⟩

/-- No function is listed twice. -/
theorem nodup_names_between (p q : Program) : ((between p q).sites.map (·.1)).Nodup := by
  refine p.functions.nodup_keys.sublist ?_
  rw [sites_between]
  simpa [FinMap.keys, Function.comp_def] using
    (List.filter_sublist (p := (!·.2.isEmpty))
      (l := p.functions.entries.map fun e => (e.1, entryPoints q e))).map (·.1)

/-- The lists of points that are left out of the converted ones do not count. -/
theorem count_between (p q : Program) :
    (between p q).count = (p.functions.entries.map fun e => (entryPoints q e).length).sum := by
  rw [count, sites_between, List.length_flatMap]
  induction p.functions.entries with
  | nil => rfl
  | cons e entries ih =>
    rw [List.map_cons, List.map_cons, List.sum_cons, ← ih, List.filter_cons]
    cases hpoints : entryPoints q e <;> simp

theorem entryPoints_mapTransform {e : String × Option Function} (h : e ∈ p.functions.entries) :
    entryPoints (p.mapTransform rule) e =
      (e.2.map fun f => points f.code (f.transform rule).code).getD [] := by
  have hfunction : (p.mapTransform rule).function? e.1 = e.2.map (·.transform rule) := by
    rw [Program.function?_mapTransform, Program.function?, FinMap.get?_eq_some_iff_mem.mpr h]
    rfl
  rw [entryPoints, hfunction]
  cases e.2 <;> rfl

theorem count_between_mapTransform (p : Program) (rule : Rule) :
    (between p (p.mapTransform rule)).count
      = (p.definitions.map fun f => (points f.code (f.transform rule).code).length).sum := by
  rw [count_between, List.map_congr_left fun e he => by rw [entryPoints_mapTransform he],
    Program.definitions, FinMap.values]
  induction p.functions.entries with
  | nil => rfl
  | cons e entries ih =>
    rw [List.map_cons, List.sum_cons, ih, List.map_cons, List.filterMap_cons]
    cases e.2 <;> simp

end Converted

/-! ## Programs -/

namespace Program

variable {p q : Program} {c : Config} {abi : Abi}

theorem names_mapTransform (p : Program) (rule : Rule) : (p.mapTransform rule).names = p.names := by
  simp [names, mapTransform, FinMap.keys, FinMap.map]

theorem definitions_mapTransform (p : Program) (rule : Rule) :
    (p.mapTransform rule).definitions = p.definitions.map (·.transform rule) := by
  simp only [definitions, mapTransform, FinMap.values, FinMap.map, List.map_map,
    List.filterMap_map, List.map_filterMap]
  rfl

/-- The conversion adds as many tail calls to a program as it converts points. -/
theorem count_add_tailcalls (rule : Rule) (h : ∀ f ∈ p.definitions, f.code.Numbered) :
    (Converted.between p (p.mapTransform rule)).count + p.tailcalls
      = (p.mapTransform rule).tailcalls := by
  rw [Converted.count_between_mapTransform, tailcalls, tailcalls, definitions_mapTransform,
    List.map_map]
  revert h
  induction p.definitions with
  | nil => simp
  | cons f fs ih =>
    intro h
    have hf := Converted.length_points_transform (h f List.mem_cons_self) rule
    have hfs := ih fun g hg => h g (List.mem_cons_of_mem f hg)
    simp only [List.map_cons, List.sum_cons, Function.comp_apply]
    omega

/-- The conversion of a program changes exactly its calls in tail position.  The converted program
is well formed, with the same first function and the same names; its functions differ in their code
only, which has the same size; and every point holds what it held, except that a call in tail
position is a tail call with the same signature, callee and arguments.  Provided that the slots are
numbered by points, comparing the two programs finds exactly these points, each once and in
increasing order, and their number is that of the tail calls that were added. -/
theorem transform_converts_exactly (h : p.transform c abi = .ok q) :
    q.malformed? = none ∧ q.main = p.main ∧ q.names = p.names ∧
    (∀ name f, p.function? name = some f → ∃ code, q.function? name = some { f with code } ∧
      code.size = f.code.size ∧
      (∀ pc, code.at? pc = f.code.at? pc ∨
        ∃ sig callee args, f.TailPosition ⟨c.bound, abi⟩ pc sig callee args) ∧
      (∀ pc sig callee args, f.TailPosition ⟨c.bound, abi⟩ pc sig callee args ↔
        (∃ dest succ, f.code.at? pc = some (.call sig callee args dest succ)) ∧
          code.at? pc = some (.tailcall sig callee args)) ∧
      ∀ pc, f.eligible ⟨c.bound, abi⟩ pc = true ↔
        ∃ sig callee args, f.TailPosition ⟨c.bound, abi⟩ pc sig callee args) ∧
    (∀ name, p.function? name = none → q.function? name = none) ∧
    ((∀ f ∈ p.definitions, f.code.Numbered) →
      (∀ name pc, (Converted.between p q).Lists name pc ↔ ∃ f sig callee args,
        p.function? name = some f ∧ f.TailPosition ⟨c.bound, abi⟩ pc sig callee args) ∧
      ((Converted.between p q).sites.map (·.1)).Nodup ∧
      (∀ site ∈ (Converted.between p q).sites, site.2 ≠ [] ∧ site.2.Pairwise (· < ·)) ∧
      ((Converted.between p q).count : Int) = q.tailcalls - p.tailcalls) := by
  obtain ⟨-, hp, rfl⟩ := transform_eq_ok_iff.mp h
  refine ⟨malformed?_mapTransform _ hp, rfl, names_mapTransform _ _, fun name f hf => ?_,
    fun name hnone => ?_,
    fun hnumbered => ⟨fun name pc => ?_, Converted.nodup_names_between _ _, ?_, ?_⟩⟩
  · refine ⟨(f.transform ⟨c.bound, abi⟩).code, ?_, Code.size_mapInstrs _ _,
      f.at?_transform_eq_or _, fun _ _ _ _ => Function.tailPosition_iff_at?_transform,
      fun _ => Function.eligible_iff⟩
    rw [function?_mapTransform, hf]
    rfl
  · rw [function?_mapTransform, hnone]
    rfl
  · rw [Converted.lists_between_iff]
    constructor
    · rintro ⟨f, g, hf, hg, hpc⟩
      rw [function?_mapTransform, hf] at hg
      cases hg
      obtain ⟨sig, callee, args, hposition⟩ := Converted.mem_points_transform.mp hpc
      exact ⟨f, sig, callee, args, hf, hposition⟩
    · rintro ⟨f, sig, callee, args, hf, hposition⟩
      refine ⟨f, f.transform ⟨c.bound, abi⟩, hf, ?_, ?_⟩
      · rw [function?_mapTransform, hf]
        rfl
      · exact Converted.mem_points_transform.mpr ⟨sig, callee, args, hposition⟩
  · rintro ⟨name, pcs⟩ hsite
    obtain ⟨hne, f, g, hf, -, rfl⟩ := Converted.mem_sites_iff.mp hsite
    exact ⟨hne, Converted.pairwise_points (hnumbered f (mem_definitions_iff.mpr ⟨name, hf⟩)) _⟩
  · have hcount := count_add_tailcalls ⟨c.bound, abi⟩ hnumbered
    omega

/-- A function with a call in tail position, a call that leads to the same return but has another
destination, a tail call, and empty slots. -/
def assorted : Program where
  main := "main"
  functions := .ofList [
    ("main", some ⟨"main", ⟨[], .int, false⟩, [], 0, 1, ⟨#[
      none,
      some (.call ⟨[], .int, false⟩ (.symbol "f") [] 1 2),
      some (.nop 3),
      some (.ret (some 1)),
      none,
      some (.call ⟨[], .int, false⟩ (.symbol "f") [] 2 3),
      some (.tailcall ⟨[], .int, false⟩ (.symbol "g") [])]⟩⟩)]

theorem transform_converts_exactly_assorted :
    ∃ q, assorted.transform .standard Config.standard.abi = .ok q ∧ q.malformed? = none ∧
      (Converted.between assorted q).Lists "main" 1 ∧
      ¬ (Converted.between assorted q).Lists "main" 5 ∧
      ((Converted.between assorted q).count : Int) = q.tailcalls - assorted.tailcalls := by
  have htransform : assorted.transform .standard Config.standard.abi
      = .ok (assorted.mapTransform Config.standard.rule) :=
    transform_eq_ok_iff.mpr ⟨rfl, by decide +kernel, rfl⟩
  have hnumbered : ∀ f ∈ assorted.definitions, f.code.Numbered := by
    intro f hf
    cases List.mem_singleton.mp hf
    exact Nat.le_of_ble_eq_true rfl
  obtain ⟨hwellformed, -, -, -, -, hlisted⟩ := transform_converts_exactly htransform
  obtain ⟨hlists, -, -, hcount⟩ := hlisted hnumbered
  refine ⟨_, htransform, hwellformed, (hlists "main" 1).mpr ?_, fun hlist => ?_, hcount⟩
  · refine ⟨_, _, _, _, rfl, rfl, by decide, 1, 2, [2, 3], rfl, ?_, by decide⟩
    exact .nop rfl (.ret rfl (.inr rfl))
  · obtain ⟨f, sig, callee, args, hf, hposition⟩ := (hlists "main" 5).mp hlist
    cases hf
    obtain ⟨dest, succ, points, hat, hepilogue, -⟩ := hposition.call
    cases hat
    -- The call leads to a return of register `1`, but its result is in register `2`.
    cases hepilogue with
    | ret hat hvalue =>
      cases hat
      exact absurd hvalue (by decide)
    | nop hat => cases hat
    | move hat => cases hat

end Program

end RegisterTransfer
