import RegisterTransfer.Proofs.Assembly
import RegisterTransfer.Proofs.Epilogues
import RegisterTransfer.Proofs.InstructionText
set_option autoImplicit false

/-!
# Programs as text

A program is `Expressible` if the format can write it: its names are identifiers, every name of its
table has a definition of that name, its instructions are expressible, and its arenas are compact.
What is read from a text is expressible, the tail call pass keeps programs expressible, and an
expressible program is read back from its text.
-/

namespace RegisterTransfer

/-! ## What the format can write -/

open Grammar

/-- A function that the format can write. -/
structure Function.Expressible (f : Function) : Prop where
  name : IsIdentifier f.name
  sig : f.sig.Expressible
  code : f.code.Compact
  instrs : ∀ pc i, f.code.at? pc = some i → i.Expressible

/-- A program that the format can write. -/
structure Program.Expressible (p : Program) : Prop where
  main : IsIdentifier p.main
  functions : ∀ name entry, p.functions.get? name = some entry →
    ∃ f, entry = some f ∧ f.name = name ∧ f.Expressible

/-! ## Assembling lines -/

/-- A line that holds an instruction at a point. -/
def SourceLine.Holds (e : Point × Instr) (l : SourceLine) : Prop :=
  l.point = e.1 ∧ l.instr = e.2

theorem SourceLine.map_entry_of_holds {es : List (Point × Instr)} {ls : List SourceLine}
    (hls : List.Forall₂ SourceLine.Holds es ls) : ls.map SourceLine.entry = es := by
  induction hls with
  | nil => rfl
  | cons hl _ ih => rw [List.map_cons, ih, SourceLine.entry, hl.1, hl.2]

/-- Lines that hold compact code fill it. -/
theorem SourceLine.fills_lines {c : Code} (hc : c.Compact) {ls : List SourceLine}
    (hls : List.Forall₂ SourceLine.Holds c.lines ls) : SourceLine.Fills ls c where
  compact := hc
  nodup := by
    rw [SourceLine.map_point_eq, SourceLine.map_entry_of_holds hls]
    exact hc.numbered.pairwise_points.imp UInt32.ne_of_lt
  at?_iff := by
    intro pc i
    rw [SourceLine.map_entry_of_holds hls, hc.numbered.mem_lines_iff_at?]

/-! ## Assembling definitions -/

/-- A definition of a function: its header, and lines that hold its code. -/
def SourceDefinition.Holds (f : Function) (d : SourceDefinition) : Prop :=
  d.header = { f with code := ∅ } ∧ List.Forall₂ SourceLine.Holds f.code.lines d.lines

theorem SourceDefinition.Holds.defines {f : Function} {d : SourceDefinition}
    (h : SourceDefinition.Holds f d) (hcode : f.code.Compact) : d.Defines f := by
  obtain ⟨hheader, hlines⟩ := h
  exact ⟨f.code, SourceLine.fills_lines hcode hlines, by rw [hheader]⟩

/-- Definitions of compact functions define these, under their names. -/
theorem SourceDefinition.defines_of_holds {fs : List Function} {ds : List SourceDefinition}
    (hds : List.Forall₂ SourceDefinition.Holds fs ds) (hcode : ∀ f ∈ fs, f.code.Compact) :
    ds.map (·.header.name) = fs.map (·.name) ∧ (∀ d ∈ ds, ∃ g, d.Defines g) ∧
      ∀ P : Function → Prop, (∃ d ∈ ds, ∃ g, d.Defines g ∧ P g) ↔ ∃ f ∈ fs, P f := by
  induction hds with
  | nil => exact ⟨rfl, nofun, by simp⟩
  | @cons f d fs ds hd _ ih =>
    obtain ⟨hf, hfs⟩ := List.forall_mem_cons.mp hcode
    obtain ⟨hnames, hdefines, hexists⟩ := ih hfs
    have hdf := hd.defines hf
    refine ⟨?_, List.forall_mem_cons.mpr ⟨⟨f, hdf⟩, hdefines⟩, fun P => ?_⟩
    · rw [List.map_cons, List.map_cons, hnames, hdf.name_eq]
    · rw [List.exists_mem_cons_iff, List.exists_mem_cons_iff, hdf.exists_iff, hexists]

/-- What a definition says is expressible. -/
structure SourceDefinition.Expressible (d : SourceDefinition) : Prop where
  name : IsIdentifier d.header.name
  sig : d.header.sig.Expressible
  lines : ∀ l ∈ d.lines, l.instr.Expressible

theorem SourceDefinition.Expressible.of_defines {d : SourceDefinition} {g : Function}
    (hd : d.Expressible) (h : d.Defines g) : g.Expressible := by
  obtain ⟨code, hcode, rfl⟩ := h
  refine ⟨hd.name, hd.sig, hcode.compact, fun pc i hi => ?_⟩
  obtain ⟨l, hl, hentry⟩ := List.mem_map.mp (hcode.at?_iff.mp hi)
  cases hentry
  exact hd.lines l hl

namespace Grammar

open RegisterTransfer.Parser

/-! ## Lines -/

/-- A line without its end, with the blanks before it. -/
def lineText (e : Point × Instr) : String :=
  "\n\t" ++ (toString e.1.toNat ++ (":" ++ (" " ++ e.2.text)))

section Offset

variable {α : Type} {f : Nat → Parser α} {text : String} {F : List UInt8 → Prop} {Q : α → Prop}

/-- The offset of a line or of a definition does not change how it is read. -/
theorem reads_offset (h : ∀ start, Reads (f start) text F Q) : Reads (offset >>= f) text F Q :=
  fun start rest hrest => h start start rest hrest

theorem refuses_offset {input : List UInt8} (h : ∀ start, Refuses (f start) input) :
    Refuses (offset >>= f) input :=
  fun start => h start start

end Offset

theorem reads_line {e : Point × Instr} (h : e.2.Expressible) :
    Reads line (lineText e) LineEnd (SourceLine.Holds e) := by
  apply Reads.rule
  refine reads_spaced ?_ (by decide) fun rest _ => ?_
  · apply reads_offset
    intro start
    refine ((reads_point "" rfl e.1).bind (fun rest _ => wordBreak_text _ rest rfl)
      ((reads_mark "" ":" rfl rfl).bind (fun _ _ => trivial)
        ((reads_instr " " rfl h).map ?_))).of_text ?_
    · rintro i rfl
      exact ⟨rfl, rfl⟩
    · simp only [String.empty_append]
  · rw [Utf8.encode_append, List.append_assoc]
    exact solid_digits (digits_toString _) _

/-- A line may follow a line: its number is no register. -/
theorem lineEnd_lineText (e : Point × Instr) (rest : List UInt8) :
    LineEnd (Utf8.encode (lineText e) ++ rest) := by
  refine ⟨wordBreak_text _ rest rfl, ?_⟩
  rw [lineText, Utf8.encode_append, Utf8.encode_append, List.append_assoc, List.append_assoc]
  obtain ⟨hne, hdigits⟩ := digits_toString e.1.toNat
  refine refuses_register "\n\t" (by decide) hne (fun b hb => isWord_of_isDigit (hdigits b hb)) ?_
    (wordBreak_text _ rest rfl)
  rintro ⟨ds, hds, -, -⟩
  exact absurd (hdigits 0x78 (hds ▸ List.mem_cons_self)) (by decide)

theorem lineEnd_of_starts {input : List UInt8} (h : Starts "\x7d" input) : LineEnd input :=
  ⟨h.wordBreak rfl, (h.refuses_mark rfl).bind.described _ _⟩

theorem refuses_line {input : List UInt8} (h : Starts "\x7d" input) : Refuses line input := by
  obtain ⟨sep, rest, hsep, hsolid, rfl⟩ := h
  apply Refuses.rule
  refine refuses_spaced sep hsep hsolid ?_
  refine refuses_offset fun _ => Refuses.bind ?_
  have hdigits : Refuses digits ([] ++ (Utf8.encode "\x7d" ++ rest)) :=
    refuses_digits (by simp) (fun h => h.1 rfl) (wordBreak_append rest rfl)
  exact (refuses_spaced "" rfl hsolid hdigits.bind).described _ _

theorem reads_lines {es : List (Point × Instr)} (h : ∀ e ∈ es, e.2.Expressible) :
    Reads (many line) (String.join (es.map lineText)) (Starts "\x7d")
      (List.Forall₂ SourceLine.Holds es) := by
  refine (Reads.many (fun e he => reads_line (h e he)) (fun e _ rest => lineEnd_lineText e rest)
    ?_).mono (fun _ h => ⟨lineEnd_of_starts h, refuses_line h⟩) fun _ h => h
  intro e _ hnil
  rw [lineText, Utf8.encode_append] at hnil
  exact absurd (List.append_eq_nil_iff.mp hnil).1 (by decide)

theorem yields_line : Yields line fun l => l.instr.Expressible := by
  apply Yields.rule
  exact Yields.after fun _ => Yields.after fun _ => Yields.after fun _ => Yields.after fun _ =>
    yields_instr.bind fun i hi => yields_pure hi

/-! ## Definitions -/

/-- A definition without its end, with the blanks before it. -/
def definitionText (f : Function) : String :=
  "\n\n" ++ ("func" ++ (" " ++ f.name ++ ("(" ++ (Reg.listText f.params ++ ")") ++
    (" " ++ f.sig.text ++ (" " ++ "stack" ++ (" " ++ toString f.stackSize.toInt ++
      (" " ++ "entry" ++ (" " ++ toString f.entry.toNat ++ (" " ++ "\x7b" ++
        (String.join (f.code.lines.map lineText) ++ ("\n" ++ "\x7d")))))))))))

theorem reads_definition {f : Function} (h : f.Expressible) :
    Reads definition (definitionText f) Anything (SourceDefinition.Holds f) := by
  have hlines : ∀ e ∈ f.code.lines, e.2.Expressible := fun e he =>
    h.instrs e.1 e.2 (h.code.numbered.mem_lines_iff_at?.mp he)
  apply Reads.rule
  refine reads_spaced ?_ (by decide) fun rest _ => ?_
  · apply reads_offset
    intro start
    refine (reads_lit "func").bind (fun _ _ => trivial) ?_
    refine Reads.of_text (reads_wordEnd.bind (fun rest _ => wordBreak_text_text _ _ rest rfl) ?_)
      String.empty_append.symm
    refine (reads_identifier " " rfl h.name).bind
      (fun rest _ => wordBreak_text_text _ _ rest rfl) ?_
    refine (reads_registers f.params).bind (fun _ _ => trivial) ?_
    refine (reads_signature " " rfl h.sig).bind (fun rest _ => wordBreak_text_text _ _ rest rfl) ?_
    refine (reads_keyword " " "stack" rfl rfl).bind
      (fun rest _ => wordBreak_text_text _ _ rest rfl) ?_
    refine (reads_number " " rfl f.stackSize).bind
      (fun rest _ => wordBreak_text_text _ _ rest rfl) ?_
    refine (reads_keyword " " "entry" rfl rfl).bind
      (fun rest _ => wordBreak_text_text _ _ rest rfl) ?_
    refine (reads_point " " rfl f.entry).bind (fun rest _ => wordBreak_text_text _ _ rest rfl) ?_
    refine (reads_mark " " "\x7b" rfl rfl).bind (fun _ _ => trivial) ?_
    refine (reads_lines hlines).bindAll
      (fun rest _ => starts_append "\n" "\x7d" rest rfl rfl) fun ls hls => ?_
    exact (reads_mark "\n" "\x7d" rfl rfl).map fun _ _ => ⟨rfl, hls⟩
  · rw [Utf8.encode_append, List.append_assoc]
    exact solid_append _ rfl

theorem yields_definition : Yields definition SourceDefinition.Expressible := by
  apply Yields.rule
  refine Yields.after fun _ => Yields.after fun _ => Yields.after fun _ => Yields.after fun _ => ?_
  refine yields_identifier.bind fun name hname => Yields.after fun _ => ?_
  refine yields_signature.bind fun sig hsig => Yields.after fun _ => Yields.after fun _ => ?_
  refine Yields.after fun _ => Yields.after fun _ => Yields.after fun _ => ?_
  exact yields_line.many.bind fun lines hlines => Yields.after fun _ =>
    yields_pure ⟨hname, hsig, hlines⟩

/-! ## Files -/

/-- The end of the text: a newline and nothing more. -/
def AtEnd (input : List UInt8) : Prop := input = Utf8.encode "\n"

theorem solid_nil : Solid [] := by
  intro b hb
  cases hb

theorem refuses_definition {input : List UInt8} (h : AtEnd input) : Refuses definition input := by
  have hinput : input = Utf8.encode "\n" ++ [] := by rw [h, List.append_nil]
  rw [hinput]
  apply Refuses.rule
  exact refuses_spaced "\n" rfl solid_nil (refuses_offset fun _ => (refuses_lit rfl).bind)

theorem run_endOfFile (offset : Nat) :
    ∃ c, endOfFile.run ⟨offset, Utf8.encode "\n"⟩ = some ((), c) := by
  have hblank : Blank "\n" := by decide
  obtain ⟨offset', hspace⟩ := run_space hblank solid_nil offset
  rw [List.append_nil] at hspace
  refine ⟨⟨offset', []⟩, ?_⟩
  simp only [endOfFile, run_described, run_bind, hspace, Option.bind_some]
  rfl

theorem reads_mainName {name : String} (h : IsIdentifier name) :
    Reads mainName ("main" ++ (" " ++ name)) WordBreak (· = name) := by
  apply Reads.rule
  exact ((reads_keyword "" "main" rfl rfl).bind (fun rest _ => wordBreak_text _ rest rfl)
    (reads_identifier " " rfl h)).of_text rfl

theorem reads_definitions {fs : List Function} (h : ∀ f ∈ fs, f.Expressible) :
    Reads (many definition) (String.join (fs.map definitionText)) AtEnd
      (List.Forall₂ SourceDefinition.Holds fs) := by
  refine (Reads.many (fun f hf => reads_definition (h f hf)) (fun _ _ _ => trivial) ?_).mono
    (fun _ h => ⟨trivial, refuses_definition h⟩) fun _ h => h
  intro f _ hnil
  rw [definitionText, Utf8.encode_append] at hnil
  exact absurd (List.append_eq_nil_iff.mp hnil).1 (by decide)

/-- The text of a file, with the separators in front of the definitions. -/
def fileText (main : String) (fs : List Function) : String :=
  "main" ++ (" " ++ main) ++ (String.join (fs.map definitionText) ++ "\n")

theorem parse_fileText {main : String} {fs : List Function} (hmain : IsIdentifier main)
    (hfs : ∀ f ∈ fs, f.Expressible) :
    ∃ ds, file.parse (Utf8.encode (fileText main fs)) = .ok ⟨some main, ds⟩ ∧
      List.Forall₂ SourceDefinition.Holds fs ds := by
  have hbreak : WordBreak (Utf8.encode (String.join (fs.map definitionText)) ++
      Utf8.encode "\n") := by
    cases fs with
    | nil =>
      have hline : WordBreak (Utf8.encode "\n" ++ []) := wordBreak_append [] rfl
      exact hline
    | cons f fs =>
      rw [List.map_cons, String.join_cons, definitionText, String.append_assoc]
      exact wordBreak_text _ _ rfl
  obtain ⟨_, offset₁, rfl, hrun₁⟩ := (reads_mainName hmain).optional 0 _ hbreak
  obtain ⟨ds, offset₂, hds, hrun₂⟩ := reads_definitions hfs offset₁ (Utf8.encode "\n") rfl
  obtain ⟨c, hrun₃⟩ := run_endOfFile offset₂
  refine ⟨ds, ?_, hds⟩
  have hrun : file.run ⟨0, Utf8.encode (fileText main fs)⟩ = some (⟨some main, ds⟩, c) := by
    rw [fileText, Utf8.encode_append, Utf8.encode_append (String.join _)]
    simp only [file, run_rule, run_bind, hrun₁, hrun₂, hrun₃, Option.bind_some, run_pure]
  simp only [Parser.parse, hrun]

theorem yields_file : Yields file fun f =>
    (∀ name ∈ f.main, IsIdentifier name) ∧ ∀ d ∈ f.definitions, d.Expressible := by
  apply Yields.rule
  have hmain : Yields mainName IsIdentifier := by
    apply Yields.rule
    exact Yields.after fun _ => yields_identifier
  refine hmain.optional.bind fun main hmain => yields_definition.many.bind fun ds hds => ?_
  exact Yields.after fun _ => yields_pure ⟨hmain, hds⟩

/-! ## Separators in front -/

/-- Separators after the items of a text are separators before them. -/
theorem join_rotate {α : Type} (sep : String) (text text' : α → String)
    (h : ∀ x, sep ++ text x = text' x ++ sep) (xs : List α) :
    sep ++ String.join (xs.map text) = String.join (xs.map text') ++ sep := by
  induction xs with
  | nil => simp
  | cons x xs ih =>
    rw [List.map_cons, List.map_cons, String.join_cons, String.join_cons, ← String.append_assoc, h,
      String.append_assoc, ih, String.append_assoc]

theorem text_line (e : Point × Instr) :
    "\n" ++ ("\t" ++ toString e.1.toNat ++ ": " ++ e.2.text ++ "\n") = lineText e ++ "\n" := by
  rw [lineText]
  generalize toString e.1.toNat = number
  generalize e.2.text = instr
  exact String.toList_inj.mp (by simp)

/-- The newline after the opening brace becomes the one before the first line.  The texts of the
parts are arbitrary here, so that none of them is unfolded. -/
theorem text_parts (name params sig size entry : String) {before behind : String}
    (h : "\n" ++ behind = before ++ "\n") :
    "\n" ++ ("\n" ++ ("func " ++ name ++ "(" ++ params ++ ") " ++ sig ++ " stack " ++ size
      ++ " entry " ++ entry ++ " \x7b\n" ++ behind ++ "\x7d\n")) =
    "\n\n" ++ ("func" ++ (" " ++ name ++ ("(" ++ (params ++ ")") ++ (" " ++ sig ++
      (" " ++ "stack" ++ (" " ++ size ++ (" " ++ "entry" ++ (" " ++ entry ++ (" " ++ "\x7b" ++
        (before ++ ("\n" ++ "\x7d"))))))))))) ++ "\n" := by
  have hlist : ∀ rest : List Char,
      '\n' :: (behind.toList ++ rest) = before.toList ++ '\n' :: rest := by
    intro rest
    simpa using congrArg (fun s : String => s.toList ++ rest) h
  exact String.toList_inj.mp (by simp [hlist])

theorem text_definition (f : Function) :
    "\n" ++ ("\n" ++ f.text) = definitionText f ++ "\n" := by
  unfold Function.text definitionText
  exact text_parts _ _ _ _ _ (join_rotate "\n" _ lineText text_line f.code.lines)

end Grammar

/-! ## Programs -/

namespace Program

variable {p : Program}

theorem text_eq_fileText (h : p.main ≠ "") : p.text = fileText p.main p.definitions := by
  have hdefinitions := join_rotate "\n" (fun f : Function => "\n" ++ f.text) definitionText
    text_definition p.definitions
  rw [fileText, ← hdefinitions, text, if_neg h]
  exact String.toList_inj.mp (by simp)

theorem Expressible.of_mem_definitions (h : p.Expressible) {f : Function}
    (hf : f ∈ p.definitions) : p.functions.get? f.name = some (some f) ∧ f.Expressible := by
  obtain ⟨name, hname⟩ := mem_definitions_iff.mp hf
  have hget : p.functions.get? name = some (some f) := Option.join_eq_some_iff.mp hname
  obtain ⟨g, hg, rfl, hexpressible⟩ := h.functions name (some f) hget
  cases hg
  exact ⟨hget, hexpressible⟩

/-- No name has two definitions. -/
theorem Expressible.nodup_names (h : p.Expressible) : (p.definitions.map (·.name)).Nodup := by
  rw [List.Nodup, List.pairwise_map, definitions, List.pairwise_filterMap, FinMap.values,
    List.pairwise_map]
  refine p.functions.sorted.imp_of_mem ?_
  intro a b ha hb hlt f hf g hg heq
  have hname : ∀ e ∈ p.functions.entries, ∀ f, e.2 = some f → f.name = e.1 := by
    intro e he f hf
    obtain ⟨f', hf', hname, -⟩ := h.functions e.1 e.2 (FinMap.get?_eq_some_iff_mem.mpr he)
    rw [hf] at hf'
    cases hf'
    exact hname
  rw [hname a ha f hf, hname b hb g hg] at heq
  simp [heq, Std.ReflCmp.compare_self] at hlt

/-- An expressible program is read back from its text. -/
theorem Expressible.parse_text (h : p.Expressible) :
    Program.parse (Utf8.encode p.text) = .ok p := by
  have hdefinitions : ∀ f ∈ p.definitions, f.Expressible := fun f hf =>
    (h.of_mem_definitions hf).2
  obtain ⟨ds, hparse, hds⟩ := parse_fileText h.main hdefinitions
  obtain ⟨hnames, hdefines, hexists⟩ :=
    SourceDefinition.defines_of_holds hds fun f hf => (hdefinitions f hf).code
  have hmakes : SourceFile.Makes ⟨some p.main, ds⟩ p := by
    refine ⟨⟨hnames ▸ h.nodup_names, hdefines, ?_⟩, rfl⟩
    intro name entry
    rw [hexists]
    constructor
    · intro hentry
      obtain ⟨f, rfl, hname, -⟩ := h.functions name entry hentry
      refine ⟨f, mem_definitions_iff.mpr ⟨name, ?_⟩, hname, rfl⟩
      rw [function?, hentry]
      rfl
    · rintro ⟨f, hf, rfl, rfl⟩
      exact (h.of_mem_definitions hf).1
  rw [text_eq_fileText h.main.ne_empty, Program.parse, hparse]
  exact SourceFile.program_eq_ok_iff.mpr hmakes

theorem isIdentifier_defaultMain : IsIdentifier defaultMain := by
  refine ⟨[0x6D, 0x61, 0x69, 0x6E], rfl, ⟨by simp, ?_, List.all_eq_true.mp rfl⟩, ?_⟩
  · intro b hb
    cases Option.mem_some.mp hb
    rfl
  · rintro ⟨ds, hds, -, -⟩
    exact absurd (List.cons.inj hds).1 (by decide)

/-- What is read from a text is expressible. -/
theorem expressible_of_parse {text : List UInt8} (h : Program.parse text = .ok p) :
    p.Expressible := by
  unfold Program.parse Parser.parse at h
  cases hrun : file.run ⟨0, text⟩ with
  | none =>
    simp only [hrun] at h
    cases h
  | some r =>
    obtain ⟨source, c⟩ := r
    simp only [hrun] at h
    obtain ⟨hmain, hdefinitions⟩ := yields_file _ _ _ hrun
    have hmakes := SourceFile.program_eq_ok_iff.mp h
    refine ⟨?_, fun name entry hget => ?_⟩
    · rw [hmakes.main]
      cases hname : source.main with
      | none => exact isIdentifier_defaultMain
      | some name => exact hmain name hname
    · obtain ⟨d, hd, g, hg, hname, rfl⟩ := hmakes.get?_iff.mp hget
      exact ⟨g, rfl, hname, (hdefinitions d hd).of_defines hg⟩

end Program

/-! ## Converted programs -/

/-- A tail call is written with the parts of the call that it replaces. -/
theorem Function.expressible_convert (f : Function) (rule : Rule) {i : Instr}
    (h : i.Expressible) : (f.convert rule i).Expressible := by
  rcases f.convert_cases rule i with heq | ⟨sig, callee, args, dest, succ, rfl, heq, -⟩
  · rw [heq]
    exact h
  · rw [heq]
    exact h

theorem Function.Expressible.transform {f : Function} (h : f.Expressible) (rule : Rule) :
    (f.transform rule).Expressible := by
  refine ⟨h.name, h.sig, h.code.mapInstrs fun _ i => f.convert rule i, ?_⟩
  intro pc i hi
  rw [Function.at?_transform, Option.map_eq_some_iff] at hi
  obtain ⟨j, hj, rfl⟩ := hi
  exact f.expressible_convert rule (h.instrs pc j hj)

namespace Program

theorem Expressible.mapTransform {p : Program} (h : p.Expressible) (rule : Rule) :
    (p.mapTransform rule).Expressible := by
  refine ⟨h.main, ?_⟩
  intro name entry hentry
  rw [get?_mapTransform, Option.map_eq_some_iff] at hentry
  obtain ⟨entry', hentry', rfl⟩ := hentry
  obtain ⟨f, rfl, hname, hf⟩ := h.functions name entry' hentry'
  exact ⟨f.transform rule, rfl, hname, hf.transform rule⟩

/-- Reading undoes writing, for every program that was read from a text and for everything that the
tail call pass makes of it. -/
theorem parse_text_of_parse {text : List UInt8} {p : Program}
    (h : Program.parse text = .ok p) :
    Program.parse (Utf8.encode p.text) = .ok p ∧
      ∀ c abi q, p.transform c abi = .ok q → Program.parse (Utf8.encode q.text) = .ok q := by
  have hp := expressible_of_parse h
  refine ⟨hp.parse_text, ?_⟩
  intro c abi q hq
  obtain ⟨-, -, rfl⟩ := transform_eq_ok_iff.mp hq
  exact (hp.mapTransform _).parse_text

/-- A text with a comment, few blanks, leading zeros, and a callee that is written like a register
with too great a number. -/
def denseText : String :=
  "// one call\nfunc main(x0)sig(any,...):int stack -0 entry 007\x7b" ++
    "007:x1=call x4294967296(x0)sig(any , ...):int->9 9:return\nx1\x7d"

/-- The program of the text. -/
def dense : Program where
  main := "main"
  functions := .ofList [
    ("main", some ⟨"main", ⟨[.any], .int, true⟩, [0], 0, 7, ⟨#[
      none, none, none, none, none, none, none,
      some (.call ⟨[.any], .int, true⟩ (.symbol "x4294967296") [0] 1 9),
      none,
      some (.ret (some 1))]⟩⟩)]

theorem parse_text_of_parse_dense :
    Program.parse (Utf8.encode denseText) = .ok dense ∧
    Program.parse (Utf8.encode dense.text) = .ok dense ∧
    ∃ q, dense.transform .standard (fun _ _ => true) = .ok q ∧ q ≠ dense ∧
      Program.parse (Utf8.encode q.text) = .ok q := by
  have hparse : Program.parse (Utf8.encode denseText) = .ok dense := by decide +kernel
  have htransform : dense.transform .standard (fun _ _ => true) =
      .ok (dense.mapTransform ⟨Config.standard.bound, fun _ _ => true⟩) :=
    transform_eq_ok_iff.mpr ⟨rfl, by decide +kernel, rfl⟩
  obtain ⟨hself, hconverted⟩ := parse_text_of_parse hparse
  exact ⟨hparse, hself, _, htransform, by decide +kernel, hconverted _ _ _ htransform⟩

end Program

end RegisterTransfer
