import RegisterTransfer.Proofs.Conversion
import RegisterTransfer.Reader
set_option autoImplicit false

/-!
# Assembling programs

The lines of a definition go into its arena one after another, and the definitions into the table.
`SourceLine.assemble_cases` and `SourceDefinition.assemble_cases` say what this can do: all of them
are added, each at a place that was free, or all up to the first whose place is taken.  What a
program holds then depends on its definitions and their lines, and not on their order.
-/

namespace RegisterTransfer

/-! ## Compact code -/

namespace Code

/-- Code that ends with an instruction, all of whose slots are numbered by points.  Such code is
determined by its instructions. -/
structure Compact (c : Code) : Prop where
  numbered : c.Numbered
  last : ∀ n, n + 1 = c.slots.size → ∃ i, c.slots[n]? = some (some i)

theorem at?_set (c : Code) (pc pc' : Point) (i : Instr) :
    (c.set pc i).at? pc' = if pc' = pc then some i else c.at? pc' := by
  unfold set
  split
  case isTrue hlt =>
    simp only [at?, Array.set!_eq_setIfInBounds, Array.getElem?_setIfInBounds, hlt]
    by_cases h : pc' = pc
    · subst h
      simp
    · have hne : ¬ pc.toNat = pc'.toNat := fun e => h (UInt32.toNat_inj.mp e).symm
      simp [h, hne]
  case isFalse hge =>
    simp only [at?, Array.getElem?_push, Array.size_append, Array.size_replicate,
      Array.getElem?_append, Array.getElem?_replicate]
    by_cases h : pc' = pc
    · subst h
      rw [if_pos (by omega)]
      simp
    · have hne : ¬ pc'.toNat = pc.toNat := fun e => h (UInt32.toNat_inj.mp e)
      rw [if_neg (by omega), if_neg h]
      by_cases hs : pc'.toNat < c.slots.size
      · simp [hs]
      · -- The slots between the old arena and the new one are empty.
        simp only [hs, if_false, Array.getElem?_eq_none (Nat.le_of_not_lt hs)]
        split <;> rfl

theorem compact_empty : Compact ∅ :=
  ⟨numbered_empty, fun n hn => absurd hn (by simp [EmptyCollection.emptyCollection, empty])⟩

theorem Compact.set {c : Code} (h : c.Compact) (pc : Point) (i : Instr) :
    (c.set pc i).Compact := by
  refine ⟨h.numbered.set pc i, ?_⟩
  unfold Code.set
  split
  case isTrue hlt =>
    intro n hn
    simp only [Array.set!_eq_setIfInBounds, Array.size_setIfInBounds] at hn
    simp only [Array.set!_eq_setIfInBounds, Array.getElem?_setIfInBounds, hlt]
    by_cases hpc : pc.toNat = n
    · simp [hpc]
    · simpa [hpc] using h.last n hn
  case isFalse hge =>
    intro n hn
    simp only [Array.size_push, Array.size_append, Array.size_replicate] at hn
    refine ⟨i, ?_⟩
    rw [Array.getElem?_push, if_pos]
    simp only [Array.size_append, Array.size_replicate]
    omega

theorem Compact.size_le_of_at? {c d : Code} (hd : d.Compact) (h : ∀ pc, c.at? pc = d.at? pc) :
    d.slots.size ≤ c.slots.size := by
  by_contra hlt
  obtain ⟨n, hn⟩ : ∃ n, n + 1 = d.slots.size := ⟨d.slots.size - 1, by omega⟩
  obtain ⟨i, hi⟩ := hd.last n hn
  have hat := h (UInt32.ofNat n)
  rw [at?, at?, hd.numbered.toNat_ofNat (Nat.lt_of_succ_le (Nat.le_of_eq hn)), hi,
    Array.getElem?_eq_none (by omega)] at hat
  cases hat

/-- Compact codes with the same instructions are equal. -/
theorem Compact.ext {c d : Code} (hc : c.Compact) (hd : d.Compact)
    (h : ∀ pc, c.at? pc = d.at? pc) : c = d := by
  have hsize : c.slots.size = d.slots.size :=
    Nat.le_antisymm (hc.size_le_of_at? fun pc => (h pc).symm) (hd.size_le_of_at? h)
  have hslots : c.slots = d.slots := by
    apply Array.ext hsize
    intro n hn hn'
    have hat := h (UInt32.ofNat n)
    rw [at?, at?, hc.numbered.toNat_ofNat hn, Array.getElem?_eq_getElem hn,
      Array.getElem?_eq_getElem hn'] at hat
    exact hat
  cases c
  cases d
  cases hslots
  rfl

theorem Compact.mapInstrs {c : Code} (h : c.Compact) (f : Point → Instr → Instr) :
    (c.mapInstrs f).Compact := by
  refine ⟨h.numbered.mapInstrs f, ?_⟩
  intro n hn
  obtain ⟨i, hi⟩ := h.last n (by simpa [Code.mapInstrs] using hn)
  exact ⟨f (UInt32.ofNat n) i, by simp [Code.mapInstrs, hi]⟩

end Code

/-! ## Repetitions -/

section Recurs

variable {α κ : Type} {key : α → κ} {xs : List α} {x : α}

/-- An element of a list that has the key of an earlier one. -/
def Recurs (key : α → κ) (xs : List α) (x : α) : Prop :=
  ∃ before after, xs = before ++ x :: after ∧ key x ∈ before.map key

theorem Recurs.mem (h : Recurs key xs x) : x ∈ xs := by
  obtain ⟨before, after, rfl, -⟩ := h
  simp

theorem Recurs.not_nodup (h : Recurs key xs x) : ¬ (xs.map key).Nodup := by
  obtain ⟨before, after, rfl, hkey⟩ := h
  intro hnodup
  rw [List.map_append, List.nodup_append] at hnodup
  exact hnodup.2.2 _ hkey _ (by simp) rfl

end Recurs

/-! ## Assembling lines -/

namespace SourceLine

variable {code code' : Code} {l : SourceLine} {ls ls' : List SourceLine}

/-- The point of a line with its instruction. -/
def entry (l : SourceLine) : Point × Instr := (l.point, l.instr)

theorem map_point_eq (ls : List SourceLine) : ls.map (·.point) = (ls.map entry).map (·.1) := by
  rw [List.map_map]
  rfl

/-- The refusal of a line whose point is taken. -/
def repeated (l : SourceLine) : Refusal := ⟨l.offset, ["a point not already defined"]⟩

/-- `code'` is `code` with the instructions of lines at different points, all of them free. -/
structure Adds (code : Code) (ls : List SourceLine) (code' : Code) : Prop where
  free : ∀ l ∈ ls, code.at? l.point = none
  nodup : (ls.map (·.point)).Nodup
  at?_iff : ∀ {pc i}, code'.at? pc = some i ↔ code.at? pc = some i ∨ (pc, i) ∈ ls.map entry
  compact : code.Compact → code'.Compact

theorem adds_nil (code : Code) : Adds code [] code where
  free := nofun
  nodup := List.nodup_nil
  at?_iff := by simp
  compact h := h

theorem Adds.cons (hl : code.at? l.point = none)
    (h : Adds (code.set l.point l.instr) ls code') : Adds code (l :: ls) code' := by
  have hne : ∀ l' ∈ ls, l'.point ≠ l.point := by
    intro l' hl' heq
    have hfree := h.free l' hl'
    rw [Code.at?_set, if_pos heq] at hfree
    cases hfree
  refine ⟨?_, ?_, ?_, fun hcode => h.compact (hcode.set l.point l.instr)⟩
  · intro l' hl'
    rcases List.mem_cons.mp hl' with rfl | hmem
    · exact hl
    · have hfree := h.free l' hmem
      rwa [Code.at?_set, if_neg (hne l' hmem)] at hfree
  · rw [List.map_cons, List.nodup_cons]
    refine ⟨fun hmem => ?_, h.nodup⟩
    obtain ⟨l', hl', heq⟩ := List.mem_map.mp hmem
    exact hne l' hl' heq
  · intro pc i
    rw [h.at?_iff, Code.at?_set, List.map_cons, List.mem_cons, entry, Prod.mk.injEq]
    by_cases heq : pc = l.point
    · subst heq
      simp [hl, eq_comm]
    · simp [heq]

/-- All lines are added, or all up to the first whose point is taken. -/
theorem assemble_cases (code : Code) (ls : List SourceLine) :
    (∃ code', Adds code ls code' ∧ assemble code ls = .ok code') ∨
      ∃ before l after code', ls = before ++ l :: after ∧ Adds code before code' ∧
        (code'.at? l.point).isSome ∧ assemble code ls = .error l.repeated := by
  induction ls generalizing code with
  | nil => exact .inl ⟨code, adds_nil code, rfl⟩
  | cons l ls ih =>
    rw [assemble]
    cases hl : code.at? l.point with
    | some i =>
      exact .inr ⟨[], l, ls, code, rfl, adds_nil code, by rw [hl]; rfl, rfl⟩
    | none =>
      obtain ⟨code', hadds, hok⟩ | ⟨before, l', after, code', rfl, hadds, htaken, herror⟩ :=
        ih (code.set l.point l.instr)
      · exact .inl ⟨code', hadds.cons hl, hok⟩
      · exact .inr ⟨l :: before, l', after, code', rfl, hadds.cons hl, htaken, herror⟩

/-- Lines are refused at the first that has the point of an earlier one. -/
theorem recurs_of_assemble {r : Refusal} (h : assemble ∅ ls = .error r) :
    ∃ before l after, ls = before ++ l :: after ∧ (before.map (·.point)).Nodup ∧
      l.point ∈ before.map (·.point) ∧ r = l.repeated := by
  obtain ⟨code, _, hok⟩ | ⟨before, l, after, code, hls, hadds, htaken, herror⟩ :=
    assemble_cases ∅ ls
  · cases hok.symm.trans h
  · cases herror.symm.trans h
    obtain ⟨i, hi⟩ := Option.isSome_iff_exists.mp htaken
    obtain hnone | hmem := hadds.at?_iff.mp hi
    · cases hnone
    · obtain ⟨l', hl', hentry⟩ := List.mem_map.mp hmem
      exact ⟨before, l, after, hls, hadds.nodup,
        List.mem_map.mpr ⟨l', hl', congrArg Prod.fst hentry⟩, rfl⟩

/-- Compact code that has the instructions of lines at different points, and no others. -/
structure Fills (ls : List SourceLine) (code : Code) : Prop where
  compact : code.Compact
  nodup : (ls.map (·.point)).Nodup
  at?_iff : ∀ {pc i}, code.at? pc = some i ↔ (pc, i) ∈ ls.map entry

theorem Adds.fills (h : Adds ∅ ls code) : Fills ls code where
  compact := h.compact Code.compact_empty
  nodup := h.nodup
  at?_iff := by simp [h.at?_iff]

/-- Lines are assembled to the code that they fill, whatever their order. -/
theorem assemble_eq_ok_iff : assemble ∅ ls = .ok code ↔ Fills ls code := by
  obtain ⟨code', hadds, hok⟩ | ⟨_, _, _, _, _, _, _, herror⟩ := assemble_cases ∅ ls
  · have hfills := hadds.fills
    rw [hok, Except.ok.injEq]
    refine ⟨fun heq => heq ▸ hfills, fun h => hfills.compact.ext h.compact fun pc => ?_⟩
    exact Option.ext fun i => by rw [hfills.at?_iff, h.at?_iff]
  · obtain ⟨before, l, after, hls, -, hpoint, -⟩ := recurs_of_assemble herror
    constructor
    · intro h
      cases herror.symm.trans h
    · intro h
      exact absurd h.nodup (Recurs.not_nodup ⟨before, after, hls, hpoint⟩)

theorem Fills.of_perm (h : Fills ls code) (hls : (ls.map entry).Perm (ls'.map entry)) :
    Fills ls' code where
  compact := h.compact
  nodup := by
    rw [map_point_eq, ← (hls.map _).nodup_iff, ← map_point_eq]
    exact h.nodup
  at?_iff := by
    intro pc i
    rw [h.at?_iff, hls.mem_iff]

/-- The points of the code are those of the lines. -/
theorem Fills.perm_points (h : Fills ls code) : code.points.Perm (ls.map (·.point)) := by
  have hnumbered := h.compact.numbered
  rw [List.perm_ext_iff_of_nodup (hnumbered.pairwise_points.imp UInt32.ne_of_lt) h.nodup]
  intro pc
  simp [Code.points, hnumbered.mem_lines_iff_at?, h.at?_iff, entry]

theorem Fills.at?_of_mem (h : Fills ls code) (hl : l ∈ ls) : code.at? l.point = some l.instr :=
  h.at?_iff.mpr (List.mem_map_of_mem hl)

/-- The arena reaches to the greatest point of the lines. -/
theorem Fills.size (h : Fills ls code) :
    (∀ l ∈ ls, l.point.toNat < code.size) ∧
      (code.size = 0 ∨ ∃ l ∈ ls, code.size = l.point.toNat + 1) := by
  refine ⟨fun l hl => Code.lt_size_of_at? (h.at?_of_mem hl), ?_⟩
  cases hsize : code.size with
  | zero => exact .inl rfl
  | succ n =>
    have hpoint := h.compact.numbered.toNat_ofNat (show n < code.size by omega)
    obtain ⟨i, hi⟩ := h.compact.last n hsize.symm
    have hat : code.at? (UInt32.ofNat n) = some i := by
      rw [Code.at?, hpoint, hi]
      rfl
    obtain ⟨l, hl, hentry⟩ := List.mem_map.mp (h.at?_iff.mp hat)
    refine .inr ⟨l, hl, ?_⟩
    rw [show l.point = UInt32.ofNat n from congrArg Prod.fst hentry, hpoint]

end SourceLine

/-! ## Assembling definitions -/

namespace SourceDefinition

variable {d : SourceDefinition} {ds : List SourceDefinition}
  {table table' : FinMap String (Option Function)}

/-- The refusal of a definition whose name is taken. -/
def repeated (d : SourceDefinition) : Refusal := ⟨d.offset, ["a function not already defined"]⟩

/-- `g` is the function with the header of `d` and the code that its lines fill. -/
def Defines (d : SourceDefinition) (g : Function) : Prop :=
  ∃ code, SourceLine.Fills d.lines code ∧ g = { d.header with code }

theorem Defines.name_eq {g : Function} (h : d.Defines g) : g.name = d.header.name := by
  obtain ⟨code, -, rfl⟩ := h
  rfl

theorem Defines.unique {g g' : Function} (h : d.Defines g) (h' : d.Defines g') : g = g' := by
  obtain ⟨code, hcode, rfl⟩ := h
  obtain ⟨code', hcode', rfl⟩ := h'
  have hassemble := SourceLine.assemble_eq_ok_iff.mpr hcode
  cases hassemble.symm.trans (SourceLine.assemble_eq_ok_iff.mpr hcode')
  rfl

theorem Defines.exists_iff {g : Function} {P : Function → Prop} (h : d.Defines g) :
    (∃ g', d.Defines g' ∧ P g') ↔ P g := by
  constructor
  · rintro ⟨g', hg', hP⟩
    rwa [← hg'.unique h]
  · intro hP
    exact ⟨g, h, hP⟩

/-- `table'` is `table` with the functions of definitions of different names, all of them free. -/
structure Adds (table : FinMap String (Option Function)) (ds : List SourceDefinition)
    (table' : FinMap String (Option Function)) : Prop where
  free : ∀ d ∈ ds, table.get? d.header.name = none
  nodup : (ds.map (·.header.name)).Nodup
  defines : ∀ d ∈ ds, ∃ g, d.Defines g
  get?_iff : ∀ {name entry}, table'.get? name = some entry ↔
    table.get? name = some entry ∨ ∃ d ∈ ds, ∃ g, d.Defines g ∧ g.name = name ∧ entry = some g

theorem adds_nil (table : FinMap String (Option Function)) : Adds table [] table where
  free := nofun
  nodup := List.nodup_nil
  defines := nofun
  get?_iff := by simp

theorem Adds.cons {g : Function} (hd : table.get? d.header.name = none) (hg : d.Defines g)
    (h : Adds (table.insert d.header.name (some g)) ds table') : Adds table (d :: ds) table' := by
  have hne : ∀ d' ∈ ds, d'.header.name ≠ d.header.name := by
    intro d' hd' heq
    have hfree := h.free d' hd'
    rw [heq, FinMap.get?_insert_self] at hfree
    cases hfree
  refine ⟨?_, ?_, List.forall_mem_cons.mpr ⟨⟨g, hg⟩, h.defines⟩, ?_⟩
  · intro d' hd'
    rcases List.mem_cons.mp hd' with rfl | hmem
    · exact hd
    · have hfree := h.free d' hmem
      rwa [FinMap.get?_insert_ne _ _ (hne d' hmem)] at hfree
  · rw [List.map_cons, List.nodup_cons]
    refine ⟨fun hmem => ?_, h.nodup⟩
    obtain ⟨d', hd', heq⟩ := List.mem_map.mp hmem
    exact hne d' hd' heq
  · intro name entry
    rw [h.get?_iff, List.exists_mem_cons_iff, hg.exists_iff, hg.name_eq]
    by_cases heq : name = d.header.name
    · subst heq
      simp [hd, eq_comm]
    · simp [FinMap.get?_insert_ne _ _ heq, Ne.symm heq]

/-- All definitions are added, or all up to the first whose name is taken or whose lines are
refused.  Where the name is taken, the lines are not looked at. -/
theorem assemble_cases (table : FinMap String (Option Function)) (ds : List SourceDefinition) :
    (∃ table', Adds table ds table' ∧ assemble table ds = .ok table') ∨
      ∃ before d after table', ds = before ++ d :: after ∧ Adds table before table' ∧
        ((table'.contains d.header.name = true ∧ assemble table ds = .error d.repeated) ∨
          (table'.contains d.header.name = false ∧
            ∃ r, SourceLine.assemble ∅ d.lines = .error r ∧ assemble table ds = .error r)) := by
  induction ds generalizing table with
  | nil => exact .inl ⟨table, adds_nil table, rfl⟩
  | cons d ds ih =>
    rw [assemble]
    cases hd : table.contains d.header.name with
    | true => exact .inr ⟨[], d, ds, table, rfl, adds_nil table, .inl ⟨hd, rfl⟩⟩
    | false =>
      have hfree : table.get? d.header.name = none := by
        simpa [FinMap.contains] using hd
      cases hcode : SourceLine.assemble ∅ d.lines with
      | error r =>
        exact .inr ⟨[], d, ds, table, rfl, adds_nil table, .inr ⟨hd, r, hcode, rfl⟩⟩
      | ok code =>
        have hg : d.Defines { d.header with code } :=
          ⟨code, SourceLine.assemble_eq_ok_iff.mp hcode, rfl⟩
        obtain ⟨table', hadds, hok⟩ | ⟨before, d', after, table', rfl, hadds, herror⟩ :=
          ih (table.insert d.header.name (some { d.header with code }))
        · exact .inl ⟨table', hadds.cons hfree hg, hok⟩
        · exact .inr ⟨d :: before, d', after, table', rfl, hadds.cons hfree hg, herror⟩

/-- A table that has the functions of definitions of different names, and no others. -/
structure Fills (ds : List SourceDefinition) (table : FinMap String (Option Function)) : Prop where
  nodup : (ds.map (·.header.name)).Nodup
  defines : ∀ d ∈ ds, ∃ g, d.Defines g
  get?_iff : ∀ {name entry}, table.get? name = some entry ↔
    ∃ d ∈ ds, ∃ g, d.Defines g ∧ g.name = name ∧ entry = some g

theorem Adds.fills (h : Adds ∅ ds table) : Fills ds table where
  nodup := h.nodup
  defines := h.defines
  get?_iff := by simp [h.get?_iff]

theorem Fills.mem_keys_iff (h : Fills ds table) {name : String} :
    name ∈ table.keys ↔ name ∈ ds.map (·.header.name) := by
  rw [FinMap.mem_keys_iff, List.mem_map]
  constructor
  · rintro ⟨entry, hentry⟩
    obtain ⟨d, hd, g, hg, hname, -⟩ := h.get?_iff.mp hentry
    exact ⟨d, hd, hg.name_eq.symm.trans hname⟩
  · rintro ⟨d, hd, hname⟩
    obtain ⟨g, hg⟩ := h.defines d hd
    exact ⟨some g, h.get?_iff.mpr ⟨d, hd, g, hg, hg.name_eq.trans hname, rfl⟩⟩

/-- The table has the names of the definitions. -/
theorem Fills.perm_keys (h : Fills ds table) : table.keys.Perm (ds.map (·.header.name)) := by
  rw [List.perm_ext_iff_of_nodup table.nodup_keys h.nodup]
  exact fun _ => h.mem_keys_iff

theorem Fills.unique (h : Fills ds table) (h' : Fills ds table') : table = table' := by
  apply FinMap.ext_get?
  intro name
  apply Option.ext
  intro entry
  rw [h.get?_iff, h'.get?_iff]

end SourceDefinition

/-! ## Programs -/

namespace SourceFile

variable {f : SourceFile} {p : Program}

/-- `p` starts with the first function of `f`, and has the functions of its definitions. -/
structure Makes (f : SourceFile) (p : Program) : Prop
    extends SourceDefinition.Fills f.definitions p.functions where
  main : p.main = f.main.getD defaultMain

/-- A file gives the program that it makes, or is refused at the first definition whose name an
earlier one has or whose lines are refused. -/
theorem program_cases (f : SourceFile) :
    (∃ p, f.Makes p ∧ f.program = .ok p) ∨
      ∃ before d after, f.definitions = before ++ d :: after ∧
        (before.map (·.header.name)).Nodup ∧ (∀ d' ∈ before, ∃ g, d'.Defines g) ∧
        ((d.header.name ∈ before.map (·.header.name) ∧ f.program = .error d.repeated) ∨
          (d.header.name ∉ before.map (·.header.name) ∧
            ∃ r, SourceLine.assemble ∅ d.lines = .error r ∧ f.program = .error r)) := by
  unfold program
  obtain ⟨table, hadds, hok⟩ | ⟨before, d, after, table, hds, hadds, hrefused⟩ :=
    SourceDefinition.assemble_cases ∅ f.definitions
  · exact .inl ⟨_, ⟨hadds.fills, rfl⟩, by rw [hok]; rfl⟩
  · refine .inr ⟨before, d, after, hds, hadds.nodup, hadds.defines, ?_⟩
    rw [← hadds.fills.mem_keys_iff, ← FinMap.contains_iff_mem_keys, Bool.not_eq_true]
    obtain ⟨htaken, herror⟩ | ⟨hfree, r, hr, herror⟩ := hrefused
    · exact .inl ⟨htaken, by rw [herror]; rfl⟩
    · exact .inr ⟨hfree, r, hr, by rw [herror]; rfl⟩

theorem Makes.unique {p' : Program} (h : f.Makes p) (h' : f.Makes p') : p = p' := by
  have hfunctions := h.toFills.unique h'.toFills
  cases p
  cases p'
  cases h.main.trans h'.main.symm
  cases hfunctions
  rfl

theorem program_eq_ok_iff : f.program = .ok p ↔ f.Makes p := by
  obtain ⟨p', hmakes, hok⟩ | ⟨before, d, after, hds, -, -, hrefused⟩ := f.program_cases
  · rw [hok, Except.ok.injEq]
    exact ⟨fun heq => heq ▸ hmakes, fun h => hmakes.unique h⟩
  · constructor
    · intro h
      obtain ⟨-, herror⟩ | ⟨-, r, -, herror⟩ := hrefused
      · cases herror.symm.trans h
      · cases herror.symm.trans h
    · intro h
      obtain ⟨hname, -⟩ | ⟨-, r, hr, -⟩ := hrefused
      · exact absurd h.nodup (Recurs.not_nodup ⟨before, after, hds, hname⟩)
      · obtain ⟨g, code, hcode, -⟩ := h.defines d (by simp [hds])
        cases hr.symm.trans (SourceLine.assemble_eq_ok_iff.mpr hcode)

end SourceFile

end RegisterTransfer
