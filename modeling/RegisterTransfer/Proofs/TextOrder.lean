import Mathlib.Data.Multiset.Defs
import RegisterTransfer.Proofs.Assembly
import RegisterTransfer.Proofs.EndOfText
set_option autoImplicit false

/-!
# Definitions and lines in the order of the text

The offsets that a file keeps are those of the keywords of its definitions and of the numbers of its
lines, and they increase from one to the next.  So the refusal of a file, which is found by going
through it, is the first of all repetitions in the text; and a text without repetitions loses
nothing and depends on no order (`Program.parse_assembles`).
-/

namespace RegisterTransfer

open RegisterTransfer.Utf8

/-! ## Places in a text -/

namespace Cursor

variable {n : Nat} {c c' : Cursor} {text : List UInt8}

/-- A place in a text: what is left there are the bytes from its offset on. -/
def PlaceIn (text : List UInt8) (c : Cursor) : Prop := text.drop c.offset = c.rest

theorem Passes.placeIn (h : c.Passes n c') (hc : c.PlaceIn text) : c'.PlaceIn text := by
  obtain ⟨read, -, -, hrest, hoffset⟩ := h
  unfold PlaceIn at hc ⊢
  rw [hoffset, ← List.drop_drop, hc, hrest, List.drop_left]

theorem Passes.offset_add_le (h : c.Passes n c') : c.offset + n ≤ c'.offset := by
  obtain ⟨read, -, hn, -, hoffset⟩ := h
  omega

end Cursor

/-- Offsets that increase, from `start` on and before `stop`. -/
structure Marked (marks : List Nat) (start stop : Nat) : Prop where
  increasing : marks.Pairwise (· < ·)
  between : ∀ m ∈ marks, start ≤ m ∧ m < stop

theorem marked_nil (start stop : Nat) : Marked [] start stop :=
  ⟨List.Pairwise.nil, nofun⟩

theorem marked_singleton {m start stop : Nat} (hstart : start ≤ m) (hstop : m < stop) :
    Marked [m] start stop := by
  refine ⟨List.pairwise_singleton _ _, fun m' hm' => ?_⟩
  cases List.mem_singleton.mp hm'
  exact ⟨hstart, hstop⟩

theorem Marked.mono {marks : List Nat} {start start' stop stop' : Nat}
    (h : Marked marks start stop) (hstart : start' ≤ start) (hstop : stop ≤ stop') :
    Marked marks start' stop' := by
  refine ⟨h.increasing, fun m hm => ?_⟩
  have hbetween := h.between m hm
  omega

theorem Marked.append {marks marks' : List Nat} {start mid stop : Nat}
    (h : Marked marks start mid) (h' : Marked marks' mid stop) (hstart : start ≤ mid)
    (hstop : mid ≤ stop) : Marked (marks ++ marks') start stop := by
  constructor
  · rw [List.pairwise_append]
    refine ⟨h.increasing, h'.increasing, fun m hm m' hm' => ?_⟩
    have hlt := h.between m hm
    have hle := h'.between m' hm'
    omega
  · intro m hm
    rcases List.mem_append.mp hm with hm | hm
    · exact (h.mono (Nat.le_refl _) hstop).between m hm
    · exact (h'.mono hstart (Nat.le_refl _)).between m hm

namespace Parser

variable {α : Type} {p : Parser α}

/-- What is true of all that is read at places of a text is true of things read there one after
another, and their marks increase if those of each do. -/
theorem SpansAll.marked {whole : List UInt8} {marks : α → List Nat} {Q : α → Prop}
    (hp : ∀ {c a c'}, c.PlaceIn whole → p.run c = some (a, c') →
      Q a ∧ Marked (marks a) c.offset c'.offset)
    {as : List α} {offset : Nat} {text rest : List UInt8} (h : p.SpansAll as offset text rest)
    (hwhole : whole.drop offset = text ++ rest) :
    (∀ a ∈ as, Q a) ∧ Marked (as.flatMap marks) offset (offset + text.length) := by
  induction h with
  | nil => exact ⟨nofun, marked_nil _ _⟩
  | @cons a as offset text texts rest hfirst _ ih =>
    rw [List.append_assoc] at hwhole
    have hnext : whole.drop (offset + text.length) = texts ++ rest := by
      rw [← List.drop_drop, hwhole, List.drop_left]
    obtain ⟨ha, hmarks⟩ := hp (c := ⟨offset, _⟩) hwhole hfirst
    obtain ⟨has, hmarks'⟩ := ih hnext
    refine ⟨List.forall_mem_cons.mpr ⟨ha, has⟩, ?_⟩
    rw [List.flatMap_cons, List.length_append, ← Nat.add_assoc]
    exact hmarks.append hmarks' (Nat.le_add_right _ _) (Nat.le_add_right _ _)

end Parser

/-! ## The places of lines and definitions -/

open Grammar

/-- The number of a line stands at its offset, as a whole word. -/
def SourceLine.StandsIn (text : List UInt8) (l : SourceLine) : Prop :=
  ∃ ds rest, text.drop l.offset = ds ++ rest ∧ Digits ds ∧ WordBreak rest ∧
    numeral ds = l.point.toNat

/-- The keyword of a definition stands at its offset, as a whole word, and the numbers of its lines
at theirs. -/
def SourceDefinition.StandsIn (text : List UInt8) (d : SourceDefinition) : Prop :=
  (∃ rest, text.drop d.offset = encode "func" ++ rest ∧ WordBreak rest) ∧
    ∀ l ∈ d.lines, l.StandsIn text

/-- The offsets of a definition and of its lines. -/
def SourceDefinition.marks (d : SourceDefinition) : List Nat := d.offset :: d.lines.map (·.offset)

/-- The offsets of a file, in the order of its definitions and of their lines. -/
def SourceFile.marks (f : SourceFile) : List Nat := f.definitions.flatMap (·.marks)

namespace Grammar

open RegisterTransfer.Parser

variable {text : List UInt8} {c c' : Cursor}

theorem wordBreak_of_wordEnd {u : Unit} (h : wordEnd.run c = some (u, c')) :
    WordBreak c.rest ∧ c' = c := by
  refine ⟨fun b hb => ?_, (run_absent_eq_some h).2⟩
  obtain ⟨offset, input⟩ := c
  cases input with
  | nil => cases hb
  | cons b' input =>
    cases Option.mem_some.mp hb
    by_contra hword
    rw [Bool.not_eq_false] at hword
    cases (refuses_wordEnd hword input offset).symm.trans h

theorem digits_eq_some {ds : List UInt8} (h : digits.run c = some (ds, c')) :
    c.rest = ds ++ c'.rest ∧ Digits ds ∧ WordBreak c'.rest := by
  obtain ⟨ds, c₁, hmany1, h⟩ := run_bind_eq_some h
  obtain ⟨_, c₂, hend, hlast⟩ := run_bind_eq_some h
  obtain ⟨d, c₃, hfirst, h⟩ := run_bind_eq_some hmany1
  obtain ⟨ds', c₄, hmany, hlist⟩ := run_bind_eq_some h
  cases hlist
  cases hlast
  obtain ⟨hbreak, rfl⟩ := wordBreak_of_wordEnd hend
  obtain ⟨offset, hmany'⟩ := run_many_satisfy "[0-9]" isDigit c₃
  cases hmany'.symm.trans hmany
  obtain ⟨hrest, hd⟩ := run_satisfy_eq_some hfirst
  refine ⟨?_, ⟨by simp, List.forall_mem_cons.mpr ⟨hd, ?_⟩⟩, hbreak⟩
  · rw [hrest, List.cons_append, List.takeWhile_append_dropWhile]
  · exact List.all_eq_true.mp List.all_takeWhile

theorem word32_eq_some {n : UInt32} (h : word32.run c = some (n, c')) :
    ∃ ds, c.rest = ds ++ c'.rest ∧ Digits ds ∧ WordBreak c'.rest ∧ numeral ds = n.toNat := by
  obtain ⟨ds, c₁, hdigits, hword⟩ := run_bind_eq_some h
  dsimp only at hword
  split at hword
  case isTrue hlt =>
    cases hword
    obtain ⟨hrest, hds, hbreak⟩ := digits_eq_some hdigits
    exact ⟨ds, hrest, hds, hbreak, (Nat.mod_eq_of_lt hlt).symm⟩
  case isFalse => cases hword

/-- After blanks and comments there are none. -/
theorem eq_of_space_again {u u' : Unit} {c'' : Cursor} (h : space.run c = some (u, c'))
    (h' : space.run c' = some (u', c'')) : c'' = c' := by
  rw [space_eq, run_described] at h h'
  obtain ⟨as, c₁, hmany, hlast⟩ := run_bind_eq_some h
  obtain ⟨as', c₂, hmany', hlast'⟩ := run_bind_eq_some h'
  cases hlast
  cases hlast'
  have hnone := confined_spaceItem.run_eq_none_of_many hmany
  have hnothing := Option.some.inj hmany'
  rw [collect_of_eq_none hnone] at hnothing
  exact (congrArg Prod.snd hnothing).symm

theorem line_marked {l : SourceLine} (hc : c.PlaceIn text) (h : line.run c = some (l, c')) :
    l.StandsIn text ∧ Marked [l.offset] c.offset c'.offset := by
  rw [line, run_rule] at h
  obtain ⟨_, c₁, hspace, h⟩ := run_bind_eq_some h
  obtain ⟨_, _, hoffset, h⟩ := run_bind_eq_some h
  cases hoffset
  obtain ⟨pc, c₂, hpoint, h⟩ := run_bind_eq_some h
  obtain ⟨_, c₃, hmark, h⟩ := run_bind_eq_some h
  obtain ⟨i, c₄, hinstr, hlast⟩ := run_bind_eq_some h
  cases hlast
  constructor
  · -- The blanks before the number are read before its offset is taken, and not by the point.
    rw [point, run_described] at hpoint
    obtain ⟨_, c₅, hspace', hword⟩ := run_bind_eq_some hpoint
    cases eq_of_space_again hspace hspace'
    obtain ⟨ds, hrest, hds, hbreak, hnumeral⟩ := word32_eq_some hword
    have hplace := (confined_space.passes hspace).placeIn hc
    exact ⟨ds, c₂.rest, hplace.trans hrest, hds, hbreak, hnumeral⟩
  · have hbefore := (confined_space.passes hspace).offset_add_le
    have hbehind := ((confined_point.passes hpoint).trans <|
      ((confined_mark ":" rfl).passes hmark).trans (confined_instr.passes hinstr)).offset_add_le
    exact marked_singleton hbefore (show c₁.offset < c'.offset by omega)

theorem definition_marked {d : SourceDefinition} (hc : c.PlaceIn text)
    (h : definition.run c = some (d, c')) :
    d.StandsIn text ∧ Marked d.marks c.offset c'.offset := by
  rw [definition, run_rule] at h
  obtain ⟨_, c₁, hspace, h⟩ := run_bind_eq_some h
  obtain ⟨_, _, hoffset, h⟩ := run_bind_eq_some h
  cases hoffset
  obtain ⟨_, c₂, hfunc, h⟩ := run_bind_eq_some h
  obtain ⟨_, c₃, hend, h⟩ := run_bind_eq_some h
  obtain ⟨name, c₄, hname, h⟩ := run_bind_eq_some h
  obtain ⟨params, c₅, hparams, h⟩ := run_bind_eq_some h
  obtain ⟨sig, c₆, hsig, h⟩ := run_bind_eq_some h
  obtain ⟨_, c₇, hstack, h⟩ := run_bind_eq_some h
  obtain ⟨size, c₈, hsize, h⟩ := run_bind_eq_some h
  obtain ⟨_, c₉, hentry, h⟩ := run_bind_eq_some h
  obtain ⟨entry, c₁₀, hpoint, h⟩ := run_bind_eq_some h
  obtain ⟨_, c₁₁, hopen, h⟩ := run_bind_eq_some h
  obtain ⟨ls, c₁₂, hlines, h⟩ := run_bind_eq_some h
  obtain ⟨_, c₁₃, hclose, hlast⟩ := run_bind_eq_some h
  cases hlast
  have hblank := confined_space.passes hspace
  have hkeyword := (confined_lit "func" rfl).passes hfunc
  have hheader := (confined_wordEnd.passes hend).trans <|
    (confined_identifier.passes hname).trans <| (confined_registers.passes hparams).trans <|
    (confined_signature.passes hsig).trans <|
    ((confined_keyword "stack" rfl).passes hstack).trans <|
    (confined_number.passes hsize).trans <| ((confined_keyword "entry" rfl).passes hentry).trans <|
    (confined_point.passes hpoint).trans ((confined_mark "\x7b" rfl).passes hopen)
  have hplace := hblank.placeIn hc
  obtain ⟨texts, hrest, hoffset, hspans⟩ := confined_line.exists_spansAll hlines
  obtain ⟨hls, hmarks⟩ := hspans.marked line_marked
    ((hheader.placeIn (hkeyword.placeIn hplace)).trans hrest)
  refine ⟨⟨⟨c₂.rest, ?_, (wordBreak_of_wordEnd hend).1⟩, hls⟩, ?_⟩
  · rw [run_lit, Option.map_eq_some_iff] at hfunc
    obtain ⟨rest, hafter, hrun⟩ := hfunc
    cases hrun
    exact hplace.trans (eq_append_of_after hafter)
  · have hbefore := hblank.offset_add_le
    have hmid := (hkeyword.trans hheader).offset_add_le
    have hbehind := ((confined_mark "\x7d" rfl).passes hclose).offset_add_le
    rw [← List.map_eq_flatMap, ← hoffset] at hmarks
    exact (marked_singleton hbefore (Nat.lt_succ_self _)).append
      (hmarks.mono (by omega) (by omega)) (by omega) (by omega)

/-- The offsets of a file are those of its parts, in the order of the text. -/
theorem file_marked {f : SourceFile} (h : file.run ⟨0, text⟩ = some (f, c)) :
    (∀ d ∈ f.definitions, d.StandsIn text) ∧ f.marks.Pairwise (· < ·) := by
  obtain ⟨_, rest, rfl, -, -, -, first, functions, spacing, rfl, -, hspans, -⟩ := layout_of_file h
  have hplace : (first ++ functions ++ spacing ++ rest).drop first.length =
      functions ++ (spacing ++ rest) := by simp
  obtain ⟨hstands, hmarks⟩ := hspans.marked definition_marked hplace
  exact ⟨hstands, hmarks.increasing⟩

end Grammar

/-! ## The first repetition -/

/-- In a list whose first part has different keys, an element with the key of an earlier one is the
one after that part, or comes later. -/
theorem Recurs.eq_or_mem {α κ : Type} {key : α → κ} {before after : List α} {x y : α}
    (h : Recurs key (before ++ y :: after) x) (hnodup : (before.map key).Nodup) :
    (x = y ∧ key y ∈ before.map key) ∨ x ∈ after := by
  obtain ⟨before', after', heq, hkey⟩ := h
  rcases List.append_eq_append_iff.mp heq with ⟨mid, rfl, hmid⟩ | ⟨mid, rfl, hmid⟩
  · cases mid with
    | nil =>
      rw [List.append_nil] at hkey
      cases hmid
      exact .inl ⟨rfl, hkey⟩
    | cons z mid =>
      cases hmid
      exact .inr (by simp)
  · cases mid with
    | nil =>
      cases hmid
      exact .inl ⟨rfl, by simpa using hkey⟩
    | cons z mid =>
      cases hmid
      exact absurd hnodup (Recurs.not_nodup ⟨before', mid, rfl, hkey⟩)

/-- Of the points that come a second time, the one that is reported comes first in the text. -/
theorem SourceLine.first_of_assemble {ls : List SourceLine} {r : Refusal}
    (hmarks : (ls.map (·.offset)).Pairwise (· < ·)) (h : SourceLine.assemble ∅ ls = .error r) :
    (∃ l, Recurs (·.point) ls l ∧ r = l.repeated) ∧
      ∀ l', Recurs (·.point) ls l' → l'.repeated = r ∨ r.offset < l'.offset := by
  obtain ⟨before, l, after, rfl, hnodup, hpoint, rfl⟩ := SourceLine.recurs_of_assemble h
  refine ⟨⟨l, ⟨before, after, rfl, hpoint⟩, rfl⟩, fun l' hl' => ?_⟩
  rcases hl'.eq_or_mem hnodup with ⟨rfl, -⟩ | hafter
  · exact .inl rfl
  · rw [List.pairwise_map] at hmarks
    have hlater := (List.pairwise_append.mp hmarks).2.1
    exact .inr (List.rel_of_pairwise_cons hlater hafter)

namespace SourceFile

variable {f f' : SourceFile} {p : Program}

/-- The repetitions of a file: a definition with the name of an earlier one, and a line with the
point of an earlier line of its definition. -/
def Repeats (f : SourceFile) (r : Refusal) : Prop :=
  (∃ d, Recurs (·.header.name) f.definitions d ∧ r = d.repeated) ∨
    ∃ d ∈ f.definitions, ∃ l, Recurs (·.point) d.lines l ∧ r = l.repeated

theorem Makes.not_repeats {r : Refusal} (h : f.Makes p) : ¬ f.Repeats r := by
  rintro (⟨d, hd, -⟩ | ⟨d, hd, l, hl, -⟩)
  · exact hd.not_nodup h.nodup
  · obtain ⟨g, code, hcode, -⟩ := h.defines d hd
    exact hl.not_nodup hcode.nodup

/-- After definitions without repetitions, a repetition is that of the next name, is one of the
points of that definition, or comes after all of it. -/
theorem Repeats.cases {before after : List SourceDefinition} {d : SourceDefinition} {r : Refusal}
    (h : f.Repeats r) (hds : f.definitions = before ++ d :: after)
    (hmarks : f.marks.Pairwise (· < ·)) (hnodup : (before.map (·.header.name)).Nodup)
    (hdefines : ∀ d' ∈ before, ∃ g, d'.Defines g) :
    (d.header.name ∈ before.map (·.header.name) ∧ r = d.repeated) ∨
      (∃ l, Recurs (·.point) d.lines l ∧ r = l.repeated) ∨ ∀ m ∈ d.marks, m < r.offset := by
  have hafter : ∀ d' ∈ after, ∀ m' ∈ d'.marks, ∀ m ∈ d.marks, m < m' := by
    intro d' hd' m' hm' m hm
    rw [marks, hds, List.flatMap_append, List.flatMap_cons] at hmarks
    have hlater := (List.pairwise_append.mp (List.pairwise_append.mp hmarks).2.1).2.2
    exact hlater m hm m' (List.mem_flatMap.mpr ⟨d', hd', hm'⟩)
  obtain ⟨d', hd', rfl⟩ | ⟨d', hd', l, hl, rfl⟩ := h
  · rw [hds] at hd'
    rcases hd'.eq_or_mem hnodup with ⟨rfl, hname⟩ | hmem
    · exact .inl ⟨hname, rfl⟩
    · exact .inr (.inr (hafter d' hmem d'.offset List.mem_cons_self))
  · rw [hds, List.mem_append, List.mem_cons] at hd'
    rcases hd' with hmem | rfl | hmem
    · obtain ⟨g, code, hcode, -⟩ := hdefines d' hmem
      exact absurd hcode.nodup hl.not_nodup
    · exact .inr (.inl ⟨l, hl, rfl⟩)
    · exact .inr (.inr (hafter d' hmem l.offset
        (List.mem_cons_of_mem _ (List.mem_map_of_mem hl.mem))))

/-- A file is refused at the first of its repetitions. -/
theorem first_of_program {r : Refusal} (hmarks : f.marks.Pairwise (· < ·))
    (h : f.program = .error r) :
    f.Repeats r ∧ ∀ r', f.Repeats r' → r' = r ∨ r.offset < r'.offset := by
  obtain ⟨p, -, hok⟩ | ⟨before, d, after, hds, hnodup, hdefines, hrefused⟩ := f.program_cases
  · cases hok.symm.trans h
  have hd : d ∈ f.definitions := by simp [hds]
  have hown : d.marks.Pairwise (· < ·) :=
    hmarks.sublist (List.sublist_flatten_of_mem (List.mem_map_of_mem hd))
  obtain ⟨hkeyword, hlines⟩ := List.pairwise_cons.mp hown
  obtain ⟨hname, herror⟩ | ⟨hname, r, hassemble, herror⟩ := hrefused
  · cases herror.symm.trans h
    refine ⟨.inl ⟨d, ⟨before, after, hds, hname⟩, rfl⟩, fun r' hr' => ?_⟩
    obtain ⟨-, rfl⟩ | ⟨l, hl, rfl⟩ | hlater := hr'.cases hds hmarks hnodup hdefines
    · exact .inl rfl
    · exact .inr (hkeyword l.offset (List.mem_map_of_mem hl.mem))
    · exact .inr (hlater d.offset List.mem_cons_self)
  · cases herror.symm.trans h
    obtain ⟨⟨l, hl, rfl⟩, hfirst⟩ := SourceLine.first_of_assemble hlines hassemble
    refine ⟨.inr ⟨d, hd, l, hl, rfl⟩, fun r' hr' => ?_⟩
    obtain ⟨hrepeated, -⟩ | ⟨l', hl', rfl⟩ | hlater := hr'.cases hds hmarks hnodup hdefines
    · exact absurd hrepeated hname
    · exact hfirst l' hl'
    · exact .inr (hlater l.offset (List.mem_cons_of_mem _ (List.mem_map_of_mem hl.mem)))

end SourceFile

/-! ## The order of definitions and lines -/

/-- What a definition says: its header, and its lines in no order. -/
def SourceDefinition.contents (d : SourceDefinition) : Function × Multiset (Point × Instr) :=
  (d.header, d.lines.map SourceLine.entry)

theorem SourceDefinition.Defines.of_contents {d d' : SourceDefinition} {g : Function}
    (h : d.Defines g) (hd : d.contents = d'.contents) : d'.Defines g := by
  obtain ⟨code, hcode, rfl⟩ := h
  obtain ⟨hheader, hlines⟩ := Prod.mk.inj hd
  exact ⟨code, hcode.of_perm (Multiset.coe_eq_coe.mp hlines), by rw [hheader]⟩

namespace SourceFile

variable {f f' : SourceFile} {p : Program}

/-- Files that say the same in another order: with the same first function, and with the same
definitions, each with the same lines. -/
structure Reorders (f f' : SourceFile) : Prop where
  main : f.main = f'.main
  definitions : (f.definitions.map (·.contents)).Perm (f'.definitions.map (·.contents))

theorem Reorders.symm (h : f.Reorders f') : f'.Reorders f := ⟨h.main.symm, h.definitions.symm⟩

theorem Reorders.exists_mem (h : f.Reorders f') {d : SourceDefinition} (hd : d ∈ f.definitions) :
    ∃ d' ∈ f'.definitions, d'.contents = d.contents :=
  List.mem_map.mp (h.definitions.mem_iff.mp (List.mem_map_of_mem hd))

theorem Reorders.perm_names (h : f.Reorders f') :
    (f.definitions.map (·.header.name)).Perm (f'.definitions.map (·.header.name)) := by
  have hnames := h.definitions.map fun contents => contents.1.name
  rwa [List.map_map, List.map_map] at hnames

theorem Makes.of_reorders (h : f.Makes p) (hf : f.Reorders f') : f'.Makes p where
  main := by rw [h.main, hf.main]
  nodup := hf.perm_names.nodup_iff.mp h.nodup
  defines := by
    intro d' hd'
    obtain ⟨d, hd, hcontents⟩ := hf.symm.exists_mem hd'
    obtain ⟨g, hg⟩ := h.defines d hd
    exact ⟨g, hg.of_contents hcontents⟩
  get?_iff := by
    intro name entry
    rw [h.get?_iff]
    constructor
    · rintro ⟨d, hd, g, hg, hentry⟩
      obtain ⟨d', hd', hcontents⟩ := hf.exists_mem hd
      exact ⟨d', hd', g, hg.of_contents hcontents.symm, hentry⟩
    · rintro ⟨d', hd', g, hg, hentry⟩
      obtain ⟨d, hd, hcontents⟩ := hf.symm.exists_mem hd'
      exact ⟨d, hd, g, hg.of_contents hcontents.symm, hentry⟩

theorem Makes.exists_code (h : f.Makes p) {d : SourceDefinition} (hd : d ∈ f.definitions) :
    ∃ code, SourceLine.Fills d.lines code ∧
      p.function? d.header.name = some { d.header with code } := by
  obtain ⟨_, code, hcode, rfl⟩ := h.defines d hd
  refine ⟨code, hcode, ?_⟩
  rw [Program.function?, h.get?_iff.mpr ⟨d, hd, _, ⟨code, hcode, rfl⟩, rfl, rfl⟩]
  rfl

end SourceFile

namespace Program

theorem parse_of_file {text : List UInt8} {f : SourceFile} {c : Cursor}
    (h : Grammar.file.run ⟨0, text⟩ = some (f, c)) : Program.parse text = f.program := by
  simp only [Program.parse, Parser.parse, h]
  rfl

/-- A text with the form of a file is refused if and only if two of its definitions have one name or
two lines of a definition have one point.  The report is the first keyword or number, in the order
of the text, that comes a second time: the offsets of the file are those of its keywords and
numbers, and increase.  Otherwise the program has one function for each definition; the points of
its code are those of the lines, in increasing order and with their instructions, and its arena ends
with the greatest of them.  The order of definitions and lines does not matter. -/
theorem parse_assembles {text : List UInt8} {f : SourceFile} {c : Cursor}
    (hmatch : Grammar.file.run ⟨0, text⟩ = some (f, c)) :
    (∀ d ∈ f.definitions, d.StandsIn text) ∧ f.marks.Pairwise (· < ·) ∧
    ((∃ r, Program.parse text = .error r) ↔ ∃ r, f.Repeats r) ∧
    (∀ r, Program.parse text = .error r →
      f.Repeats r ∧ ∀ r', f.Repeats r' → r' = r ∨ r.offset < r'.offset) ∧
    ((¬ ∃ r, f.Repeats r) → ∃ p, Program.parse text = .ok p ∧
      p.main = f.main.getD defaultMain ∧
      p.names.Perm (f.definitions.map (·.header.name)) ∧
      ∀ d ∈ f.definitions, ∃ code, p.function? d.header.name = some { d.header with code } ∧
        code.points.Pairwise (· < ·) ∧ code.points.Perm (d.lines.map (·.point)) ∧
        (∀ l ∈ d.lines, code.at? l.point = some l.instr) ∧
        (∀ l ∈ d.lines, l.point.toNat < code.size) ∧
        (code.size = 0 ∨ ∃ l ∈ d.lines, code.size = l.point.toNat + 1)) ∧
    ∀ text' f' c', Grammar.file.run ⟨0, text'⟩ = some (f', c') → f.Reorders f' →
      ∀ p, Program.parse text = .ok p ↔ Program.parse text' = .ok p := by
  rw [parse_of_file hmatch]
  obtain ⟨hstands, hmarks⟩ := Grammar.file_marked hmatch
  have hfails : (∃ r, f.program = .error r) ↔ ∃ r, f.Repeats r := by
    constructor
    · rintro ⟨r, hr⟩
      exact ⟨r, (SourceFile.first_of_program hmarks hr).1⟩
    · rintro ⟨r, hr⟩
      cases hprogram : f.program with
      | error r => exact ⟨r, rfl⟩
      | ok p => exact absurd hr (SourceFile.program_eq_ok_iff.mp hprogram).not_repeats
  refine ⟨hstands, hmarks, hfails, fun r => SourceFile.first_of_program hmarks, fun hnone => ?_,
    fun text' f' c' hmatch' hf p => ?_⟩
  · cases hprogram : f.program with
    | error r => exact absurd (hfails.mp ⟨r, hprogram⟩) hnone
    | ok p =>
      have hmakes := SourceFile.program_eq_ok_iff.mp hprogram
      refine ⟨p, rfl, hmakes.main, hmakes.perm_keys, fun d hd => ?_⟩
      obtain ⟨code, hcode, hfunction⟩ := hmakes.exists_code hd
      exact ⟨code, hfunction, hcode.compact.numbered.pairwise_points, hcode.perm_points,
        fun l hl => hcode.at?_of_mem hl, hcode.size⟩
  · rw [parse_of_file hmatch', SourceFile.program_eq_ok_iff, SourceFile.program_eq_ok_iff]
    exact ⟨fun h => h.of_reorders hf, fun h => h.of_reorders hf.symm⟩

/-- A text with its functions and lines out of order. -/
def shuffledText : List UInt8 :=
  encode "func g() sig():int stack 0 entry 3 \x7b 3: nop -> 1 1: return \x7d
func f() sig():int stack 0 entry 1 \x7b 1: return \x7d"

/-- The same text in order. -/
def orderedText : List UInt8 :=
  encode "func f() sig():int stack 0 entry 1 \x7b 1: return \x7d
func g() sig():int stack 0 entry 3 \x7b 1: return 3: nop -> 1 \x7d"

/-- A text that repeats a point, and then a name. -/
def repeatedText : List UInt8 :=
  encode "func f() sig():int stack 0 entry 1 \x7b 1: return 1: return \x7d
func f() sig():int stack 0 entry 1 \x7b 1: return \x7d"

/-- The header of their functions. -/
def plainHeader (name : String) (entry : Point) : Function :=
  ⟨name, ⟨[], .int, false⟩, [], 0, entry, ∅⟩

/-- The files of the texts. -/
def shuffledFile : SourceFile :=
  ⟨none, [⟨0, plainHeader "g" 3, [⟨37, 3, .nop 1⟩, ⟨49, 1, .ret none⟩]⟩,
    ⟨61, plainHeader "f" 1, [⟨98, 1, .ret none⟩]⟩]⟩

@[inherit_doc shuffledFile]
def orderedFile : SourceFile :=
  ⟨none, [⟨0, plainHeader "f" 1, [⟨37, 1, .ret none⟩]⟩,
    ⟨49, plainHeader "g" 3, [⟨86, 1, .ret none⟩, ⟨96, 3, .nop 1⟩]⟩]⟩

@[inherit_doc shuffledFile]
def repeatedFile : SourceFile :=
  ⟨none, [⟨0, plainHeader "f" 1, [⟨37, 1, .ret none⟩, ⟨47, 1, .ret none⟩]⟩,
    ⟨59, plainHeader "f" 1, [⟨96, 1, .ret none⟩]⟩]⟩

theorem file_shuffledText :
    (Grammar.file.run ⟨0, shuffledText⟩).map (·.1) = some shuffledFile := by decide +kernel

theorem file_orderedText :
    (Grammar.file.run ⟨0, orderedText⟩).map (·.1) = some orderedFile := by decide +kernel

theorem file_repeatedText :
    (Grammar.file.run ⟨0, repeatedText⟩).map (·.1) = some repeatedFile := by decide +kernel

theorem reorders_shuffledFile : shuffledFile.Reorders orderedFile := by
  refine ⟨rfl, ?_⟩
  have hlines :
      SourceDefinition.contents ⟨0, plainHeader "g" 3, [⟨37, 3, .nop 1⟩, ⟨49, 1, .ret none⟩]⟩ =
      SourceDefinition.contents ⟨49, plainHeader "g" 3, [⟨86, 1, .ret none⟩, ⟨96, 3, .nop 1⟩]⟩ :=
    Prod.ext rfl (Multiset.coe_eq_coe.mpr (.swap _ _ []))
  simp only [shuffledFile, orderedFile, List.map_cons, List.map_nil, hlines]
  exact .swap _ _ []

theorem not_repeats_shuffledFile : ¬ ∃ r, shuffledFile.Repeats r := by
  rintro ⟨r, ⟨d, hd, -⟩ | ⟨d, hd, l, hl, -⟩⟩
  · exact hd.not_nodup (by decide)
  · have hpoints : ∀ d ∈ shuffledFile.definitions, (d.lines.map (·.point)).Nodup := by decide
    exact hl.not_nodup (hpoints d hd)

theorem repeats_repeatedFile :
    repeatedFile.Repeats (SourceLine.repeated ⟨47, 1, .ret none⟩) :=
  .inr ⟨_, List.mem_cons_self, _, ⟨[⟨37, 1, .ret none⟩], [], rfl, List.mem_cons_self⟩, rfl⟩

/-- Of two functions out of order nothing is lost; of two repetitions, the point comes first. -/
theorem parse_assembles_shuffled :
    (∃ p, Program.parse shuffledText = .ok p ∧ Program.parse orderedText = .ok p ∧
      p.names.Perm ["g", "f"]) ∧
      ∃ r, Program.parse repeatedText = .error r ∧ r.offset < 59 := by
  obtain ⟨⟨_, c⟩, hshuffled, rfl⟩ := Option.map_eq_some_iff.mp file_shuffledText
  obtain ⟨⟨_, c'⟩, hordered, rfl⟩ := Option.map_eq_some_iff.mp file_orderedText
  obtain ⟨⟨_, c''⟩, hrepeated, rfl⟩ := Option.map_eq_some_iff.mp file_repeatedText
  obtain ⟨-, -, -, -, hassembles, hreorders⟩ := parse_assembles hshuffled
  obtain ⟨-, -, hfails, hfirst, -, -⟩ := parse_assembles hrepeated
  constructor
  · obtain ⟨p, hparse, -, hnames, -⟩ := hassembles not_repeats_shuffledFile
    exact ⟨p, hparse, (hreorders _ _ _ hordered reorders_shuffledFile p).mp hparse, hnames⟩
  · obtain ⟨r, hr⟩ := hfails.mpr ⟨_, repeats_repeatedFile⟩
    refine ⟨r, hr, ?_⟩
    obtain rfl | hlt := (hfirst r hr).2 _ repeats_repeatedFile
    · decide
    · exact Nat.lt_trans hlt (by decide)

end Program

end RegisterTransfer
