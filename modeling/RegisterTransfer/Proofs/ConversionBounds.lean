import RegisterTransfer.Proofs.ConvertedCalls
set_option autoImplicit false

/-!
# Conversions under several bounds

A conversion replaces calls, through which no epilogue passes.  So it leaves the epilogues of a
function alone, and two conversions under different bounds do what one does under the greater of
them (`Function.transform_transform`).  From this law it follows that a second conversion changes
nothing and that a greater bound converts no fewer calls; a bound past the size of the longest code
converts no more (`Program.transform_bounds`).
-/

namespace RegisterTransfer

/-! ## Epilogues of converted code -/

namespace Code

variable {code code' : Code} {pc : Point} {r : Reg} {points : List Point}

/-- Code that has all instructions of another but its calls and tail calls has its epilogues. -/
theorem Epilogue.of_at? (h : code.Epilogue pc r points)
    (hat : ∀ pc i, i.isCall = false → i.isTailcall = false → code.at? pc = some i →
      code'.at? pc = some i) : code'.Epilogue pc r points := by
  induction h with
  | ret hpc hvalue => exact .ret (hat _ _ rfl rfl hpc) hvalue
  | nop hpc _ ih => exact .nop (hat _ _ rfl rfl hpc) ih
  | move hpc _ ih => exact .move (hat _ _ rfl rfl hpc) ih

/-- What is within the greater of two bounds is within one of them. -/
theorem isReturn_max (code : Code) (pc : Point) (r : Reg) (b b' : Int) :
    code.isReturn pc r (max b b') = (code.isReturn pc r b || code.isReturn pc r b') := by
  have hmax : ∀ n : Int, n ≤ max b b' ↔ n ≤ b ∨ n ≤ b' := by
    intro n
    omega
  rw [Bool.eq_iff_iff, Bool.or_eq_true]
  simp only [isReturn_iff_epilogue, hmax, and_or_left, exists_or]

theorem mapInstrs_mapInstrs (f g : Point → Instr → Instr) (c : Code) :
    (c.mapInstrs f).mapInstrs g = c.mapInstrs fun pc i => g pc (f pc i) := by
  simp only [mapInstrs, Array.mapIdx_mapIdx, Function.comp_def, Option.map_map]

end Code

/-! ## Functions -/

namespace Function

variable {f : Function} {rule : Rule} {pc : Point} {r : Reg} {points : List Point}

theorem at?_transform_iff {i : Instr} (hcall : i.isCall = false) (htail : i.isTailcall = false) :
    (f.transform rule).code.at? pc = some i ↔ f.code.at? pc = some i := by
  rcases f.at?_transform_eq_or rule pc with hsame | ⟨sig, callee, args, hposition⟩
  · rw [hsame]
  · obtain ⟨dest, succ, _, hat, -⟩ := hposition.call
    rw [hat, hposition.at?_transform]
    constructor
    · intro h
      cases h
      cases htail
    · intro h
      cases h
      cases hcall

/-- A conversion leaves the epilogues of a function alone. -/
theorem epilogue_transform_iff :
    (f.transform rule).code.Epilogue pc r points ↔ f.code.Epilogue pc r points :=
  ⟨fun h => h.of_at? fun _ _ hcall htail => (at?_transform_iff hcall htail).mp,
    fun h => h.of_at? fun _ _ hcall htail => (at?_transform_iff hcall htail).mpr⟩

theorem isReturn_transform (f : Function) (rule : Rule) (pc : Point) (r : Reg) (bound : Int) :
    (f.transform rule).code.isReturn pc r bound = f.code.isReturn pc r bound := by
  rw [Bool.eq_iff_iff]
  simp only [Code.isReturn_iff_epilogue, epilogue_transform_iff]

theorem obstacle?_transform (f : Function) (rule rule' : Rule) (sig : Signature) (dest : Reg)
    (succ : Point) :
    (f.transform rule).obstacle? rule' sig dest succ = f.obstacle? rule' sig dest succ := by
  simp only [obstacle?, isReturn_transform, stackSize_transform, sig_transform]

/-- Under the greater of two bounds, a call has an obstacle if it has one under each of them. -/
theorem isNone_obstacle?_max (f : Function) (b b' : Int) (abi : Abi) (sig : Signature) (dest : Reg)
    (succ : Point) :
    (f.obstacle? ⟨max b b', abi⟩ sig dest succ).isNone
      = ((f.obstacle? ⟨b, abi⟩ sig dest succ).isNone
        || (f.obstacle? ⟨b', abi⟩ sig dest succ).isNone) := by
  rw [Bool.eq_iff_iff, Bool.or_eq_true]
  simp only [Option.isNone_iff_eq_none, obstacle?_eq_none_iff, Code.isReturn_max, Bool.or_eq_true,
    and_or_left]

theorem convert_convert (f : Function) (b b' : Int) (abi : Abi) (i : Instr) :
    (f.transform ⟨b, abi⟩).convert ⟨b', abi⟩ (f.convert ⟨b, abi⟩ i)
      = f.convert ⟨max b b', abi⟩ i := by
  cases i with
  | call sig callee args dest succ =>
    simp only [convert, isNone_obstacle?_max]
    cases (f.obstacle? ⟨b, abi⟩ sig dest succ).isNone with
    | true => rfl
    | false => simp [obstacle?_transform]
  | _ => rfl

/-- Two conversions do what one does under the greater of their bounds. -/
theorem transform_transform (f : Function) (b b' : Int) (abi : Abi) :
    (f.transform ⟨b, abi⟩).transform ⟨b', abi⟩ = f.transform ⟨max b b', abi⟩ := by
  have hcode : ((f.transform ⟨b, abi⟩).transform ⟨b', abi⟩).code
      = (f.transform ⟨max b b', abi⟩).code := by
    simp only [transform, Code.mapInstrs_mapInstrs]
    congr 1
    funext _ i
    exact convert_convert f b b' abi i
  exact congrArg (fun code => { f with code }) hcode

/-- Bounds that find the same epilogues convert alike. -/
theorem transform_congr {b b' : Int} (abi : Abi)
    (h : ∀ pc r, f.code.isReturn pc r b = f.code.isReturn pc r b') :
    f.transform ⟨b, abi⟩ = f.transform ⟨b', abi⟩ := by
  have hconvert : f.convert ⟨b, abi⟩ = f.convert ⟨b', abi⟩ := by
    funext i
    simp only [convert, obstacle?, h]
  simp only [transform, hconvert]

end Function

/-! ## Programs -/

namespace Program

variable {p q : Program} {c : Config} {b : Int}

theorem mapTransform_mapTransform (p : Program) (b b' : Int) (abi : Abi) :
    (p.mapTransform ⟨b, abi⟩).mapTransform ⟨b', abi⟩ = p.mapTransform ⟨max b b', abi⟩ := by
  have hfunctions : ((p.mapTransform ⟨b, abi⟩).mapTransform ⟨b', abi⟩).functions
      = (p.mapTransform ⟨max b b', abi⟩).functions := by
    apply FinMap.ext_get?
    intro name
    simp only [get?_mapTransform, Option.map_map, Function.comp_def, Function.transform_transform]
  exact congrArg (fun functions => { p with functions }) hfunctions

/-- Tail calls stay, so what is converted once is converted whatever conversion follows. -/
theorem lists_mapTransform {rule : Rule} {name : String} {pc : Point}
    (h : (Converted.between p q).Lists name pc) :
    (Converted.between p (q.mapTransform rule)).Lists name pc := by
  rw [Converted.lists_between_iff] at h ⊢
  obtain ⟨f, g, hf, hg, hpc⟩ := h
  refine ⟨f, g.transform rule, hf, ?_, ?_⟩
  · rw [function?_mapTransform, hg]
    rfl
  · rw [Converted.mem_points_iff] at hpc ⊢
    obtain ⟨i, hline, hcall, htail⟩ := hpc
    refine ⟨i, hline, hcall, ?_⟩
    rw [Option.any_eq_true] at htail ⊢
    obtain ⟨j, hj, hjtail⟩ := htail
    obtain ⟨sig, callee, args, rfl⟩ := Instr.isTailcall_iff.mp hjtail
    exact ⟨.tailcall sig callee args, by rw [Function.at?_transform, hj]; rfl, rfl⟩

/-- A bound past the size of the longest code is as good as that size. -/
theorem mapTransform_of_longestCode_le (h : (p.longestCode : Int) ≤ b) (abi : Abi) :
    p.mapTransform ⟨b, abi⟩ = p.mapTransform ⟨p.longestCode, abi⟩ := by
  have hfunctions : (p.mapTransform ⟨b, abi⟩).functions
      = (p.mapTransform ⟨p.longestCode, abi⟩).functions := by
    apply FinMap.ext_get?
    intro name
    rw [get?_mapTransform, get?_mapTransform]
    refine Option.map_congr fun entry hentry => Option.map_congr fun f hf => ?_
    have hmem : f ∈ p.definitions := by
      refine mem_definitions_iff.mpr ⟨name, ?_⟩
      rw [function?, hentry, hf]
      rfl
    refine Function.transform_congr abi fun pc r => ?_
    rw [← isReturn_measureBound hmem pc r, measureBound, Int.min_eq_right h]
  exact congrArg (fun functions => { p with functions }) hfunctions

/-- Converting a program under one bound, and then under another, is converting it under the greater
of them.  So a second conversion changes nothing.  A greater bound converts all calls that a smaller
one converts, and all bounds from the size of the longest code on convert alike. -/
theorem transform_bounds (b' : Int) (abi : Abi) (hp : p.malformed? = none) (hc : c.error? = none)
    (hc' : { c with bound := b' }.error? = none) :
    (∃ q r, p.transform c abi = .ok q ∧ q.transform { c with bound := b' } abi = .ok r ∧
      p.transform { c with bound := max c.bound b' } abi = .ok r) ∧
    (∃ q, p.transform c abi = .ok q ∧ q.transform c abi = .ok q) ∧
    (c.bound ≤ b' → ∃ q q', p.transform c abi = .ok q ∧
      p.transform { c with bound := b' } abi = .ok q' ∧
      ∀ name pc, (Converted.between p q).Lists name pc → (Converted.between p q').Lists name pc) ∧
    ((p.longestCode : Int) ≤ c.bound → (p.longestCode : Int) ≤ b' →
      ∃ q, p.transform c abi = .ok q ∧ p.transform { c with bound := b' } abi = .ok q) := by
  have hmax : { c with bound := max c.bound b' }.error? = none := by
    rw [error?_eq_none_iff] at hc ⊢
    exact ⟨Int.le_trans hc.1 (Int.le_max_left _ _), hc.2⟩
  have hq := malformed?_mapTransform ⟨c.bound, abi⟩ hp
  refine ⟨?_, ?_, fun hle => ?_, fun hlongest hlongest' => ?_⟩
  · exact ⟨_, _, transform_eq_ok_iff.mpr ⟨hc, hp, rfl⟩, transform_eq_ok_iff.mpr ⟨hc', hq, rfl⟩,
      transform_eq_ok_iff.mpr ⟨hmax, hp, mapTransform_mapTransform p c.bound b' abi⟩⟩
  · refine ⟨_, transform_eq_ok_iff.mpr ⟨hc, hp, rfl⟩, transform_eq_ok_iff.mpr ⟨hc, hq, ?_⟩⟩
    rw [mapTransform_mapTransform, Int.max_self]
  · refine ⟨_, _, transform_eq_ok_iff.mpr ⟨hc, hp, rfl⟩, transform_eq_ok_iff.mpr ⟨hc', hp, rfl⟩,
      fun name pc hlists => ?_⟩
    -- The conversion under the greater bound is one that follows the other.
    rw [← Int.max_eq_right hle, ← mapTransform_mapTransform]
    exact lists_mapTransform hlists
  · refine ⟨_, transform_eq_ok_iff.mpr ⟨hc, hp, rfl⟩, transform_eq_ok_iff.mpr ⟨hc', hp, ?_⟩⟩
    rw [mapTransform_of_longestCode_le hlongest, mapTransform_of_longestCode_le hlongest']

/-- Settings under which only a call that a return follows at once is converted. -/
def shortSighted : Config := { Config.standard with bound := 1 }

/-- A bound of one converts the call of `g` but not that of `f`, and the bound of five converts the
rest. -/
theorem transform_bounds_relay :
    ∃ q, relay.transform shortSighted shortSighted.abi = .ok q ∧ q ≠ relayConverted ∧
      q.transform shortSighted shortSighted.abi = .ok q ∧
      q.transform .standard shortSighted.abi = .ok relayConverted ∧
      ∀ name pc, (Converted.between relay q).Lists name pc →
        (Converted.between relay relayConverted).Lists name pc := by
  obtain ⟨⟨q, r, hq, hr, hrelay⟩, ⟨q', hq', hsame⟩, hmono, -⟩ :=
    transform_bounds (p := relay) (c := shortSighted) 5 shortSighted.abi (by decide +kernel) rfl rfl
  obtain ⟨q'', r', hq'', hr', hlists⟩ := hmono (by decide)
  cases hq.symm.trans hq'
  cases hq.symm.trans hq''
  cases hrelay.symm.trans transform_relay
  cases hr'.symm.trans transform_relay
  refine ⟨q, hq, ?_, hsame, hr, hlists⟩
  obtain ⟨-, -, rfl⟩ := transform_eq_ok_iff.mp hq
  decide +kernel

end Program

end RegisterTransfer
