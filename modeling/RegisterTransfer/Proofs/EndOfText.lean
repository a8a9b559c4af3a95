import RegisterTransfer.Proofs.Confinement
import RegisterTransfer.Reader
set_option autoImplicit false

/-!
# Where the text of a program ends

The rules end a program where no character can be read.  They read whole characters, and are blind
to what follows a readable text.  So a program is read from the readable part of a text, from all of
it, and from nothing else: the bytes from the first one that starts no character on, or from the
first U+FFFD on, are dropped without a report (`Program.parse_ends`).
-/

namespace RegisterTransfer

open RegisterTransfer.Utf8

/-! ## The texts of the parts -/

namespace Parser

variable {α : Type} {p : Parser α} {n offset offset' : Nat} {input rest : List UInt8}

/-- At an offset, before `rest`, `p` reads `text` as `a`. -/
def Spans (p : Parser α) (a : α) (offset : Nat) (text rest : List UInt8) : Prop :=
  p.run ⟨offset, text ++ rest⟩ = some (a, ⟨offset + text.length, rest⟩)

/-- At an offset, before `rest`, `p` reads the parts of `text`, one after another, as `as`. -/
inductive SpansAll (p : Parser α) : List α → Nat → List UInt8 → List UInt8 → Prop
  | nil {offset : Nat} {rest : List UInt8} : SpansAll p [] offset [] rest
  | cons {a : α} {as : List α} {offset : Nat} {text texts rest : List UInt8}
      (hfirst : p.Spans a offset text (texts ++ rest))
      (hnext : SpansAll p as (offset + text.length) texts rest) :
      SpansAll p (a :: as) offset (text ++ texts) rest

theorem Confined.run_append {more : List UInt8} (hp : Confined n p) (hinput : Readable input)
    (hmore : Unreadable more) :
    p.run ⟨offset, input ++ more⟩ =
      (p.run ⟨offset, input⟩).map fun r => (r.1, r.2.followedBy more) :=
  hp.blind (c := ⟨offset, input⟩) hinput hmore

theorem Confined.exists_spans {a : α} (hp : Confined n p)
    (h : p.run ⟨offset, input⟩ = some (a, ⟨offset', rest⟩)) :
    ∃ text, input = text ++ rest ∧ offset' = offset + text.length ∧ Readable text ∧
      p.Spans a offset text rest := by
  obtain ⟨text, hread, -, hinput, hoffset⟩ := hp.passes h
  refine ⟨text, hinput, hoffset, hread, ?_⟩
  rw [show input = text ++ rest from hinput, show offset' = offset + text.length from hoffset] at h
  exact h

theorem Confined.exists_spansAll {as : List α} (hp : Confined 1 p)
    (h : (Parser.many p).run ⟨offset, input⟩ = some (as, ⟨offset', rest⟩)) :
    ∃ text, input = text ++ rest ∧ offset' = offset + text.length ∧
      p.SpansAll as offset text rest := by
  have hcollect : ∀ (fuel : List UInt8) {as offset input},
      collect p.run fuel ⟨offset, input⟩ = (as, ⟨offset', rest⟩) →
      ∃ text, input = text ++ rest ∧ offset' = offset + text.length ∧
        p.SpansAll as offset text rest := by
    intro fuel
    induction fuel with
    | nil =>
      intro as offset input hrun
      cases hrun
      exact ⟨[], rfl, rfl, .nil⟩
    | cons b fuel ih =>
      intro as offset input hrun
      cases hr : p.run ⟨offset, input⟩ with
      | none =>
        rw [collect_of_eq_none hr] at hrun
        cases hrun
        exact ⟨[], rfl, rfl, .nil⟩
      | some r =>
        obtain ⟨a, offset₁, input₁⟩ := r
        obtain ⟨text, rfl, rfl, -, hfirst⟩ := hp.exists_spans hr
        simp only [collect, hr, Prod.mk.injEq] at hrun
        obtain ⟨rfl, hlast⟩ := hrun
        obtain ⟨texts, rfl, rfl, hnext⟩ := ih (Prod.ext rfl hlast)
        exact ⟨text ++ texts, (List.append_assoc _ _ _).symm,
          by rw [List.length_append, Nat.add_assoc], .cons hfirst hnext⟩
  exact hcollect input (Option.some.inj h)

theorem Confined.exists_spansAll_optional {o : Option α} (hp : Confined n p)
    (h : (Parser.optional p).run ⟨offset, input⟩ = some (o, ⟨offset', rest⟩)) :
    ∃ text, input = text ++ rest ∧ offset' = offset + text.length ∧
      p.SpansAll o.toList offset text rest := by
  cases hr : p.run ⟨offset, input⟩ with
  | none =>
    simp only [Parser.optional, run_orElse, run_map, hr] at h
    cases h
    exact ⟨[], rfl, rfl, .nil⟩
  | some r =>
    obtain ⟨a, c⟩ := r
    simp only [Parser.optional, run_orElse, run_map, hr] at h
    cases h
    obtain ⟨text, rfl, rfl, -, hspans⟩ := hp.exists_spans hr
    refine ⟨text, rfl, rfl, ?_⟩
    rw [← List.append_nil text]
    exact .cons hspans .nil

theorem run_absent_eq_some {want : String} {u : Unit} {c c' : Cursor}
    (h : (absent want p).run c = some (u, c')) : p.run c = none ∧ c' = c := by
  simp only [absent] at h
  split at h
  case isTrue => cases h
  case isFalse hnone =>
    cases h
    exact ⟨by simpa using hnone, rfl⟩

end Parser

namespace Grammar

open RegisterTransfer.Parser

/-! ## Spaces and comments -/

/-- Blanks and comments.  A comment is two slashes and characters other than the newline. -/
inductive Spacing : List UInt8 → Prop
  | nil : Spacing []
  | blank {b : UInt8} {rest : List UInt8} (hb : isBlank b = true) (hrest : Spacing rest) :
      Spacing (b :: rest)
  | comment {cs : List Char} {rest : List UInt8}
      (hcs : ∀ c ∈ cs, c ≠ '\n' ∧ c ≠ replacement) (hrest : Spacing rest) :
      Spacing (encode "//" ++ cs.flatMap String.utf8EncodeChar ++ rest)

theorem spans_commentChar {c : Char} {offset : Nat} {text rest : List UInt8}
    (h : commentChar.Spans c offset text rest) :
    text = String.utf8EncodeChar c ∧ c ≠ '\n' ∧ c ≠ replacement := by
  simp only [Spans, commentChar, run_bind, Option.bind_eq_some_iff] at h
  obtain ⟨⟨_, c₁⟩, habsent, hchar⟩ := h
  obtain ⟨hline, rfl⟩ := run_absent_eq_some habsent
  obtain ⟨hne, htext, -⟩ := run_anyChar_eq_some_iff.mp hchar
  change text ++ rest = String.utf8EncodeChar c ++ rest at htext
  refine ⟨List.append_cancel_right htext, ?_, hne⟩
  rintro rfl
  rw [htext] at hline
  cases hline

theorem spansAll_commentChar {cs : List Char} {offset : Nat} {text rest : List UInt8}
    (h : commentChar.SpansAll cs offset text rest) :
    text = cs.flatMap String.utf8EncodeChar ∧ ∀ c ∈ cs, c ≠ '\n' ∧ c ≠ replacement := by
  induction h with
  | nil => exact ⟨rfl, nofun⟩
  | cons hfirst _ ih =>
    obtain ⟨rfl, hc⟩ := spans_commentChar hfirst
    obtain ⟨rfl, hcs⟩ := ih
    exact ⟨rfl, List.forall_mem_cons.mpr ⟨hc, hcs⟩⟩

theorem spans_comment {offset : Nat} {text rest : List UInt8}
    (h : comment.Spans () offset text rest) :
    ∃ cs : List Char, text = encode "//" ++ cs.flatMap String.utf8EncodeChar ∧
      ∀ c ∈ cs, c ≠ '\n' ∧ c ≠ replacement := by
  simp only [Spans, comment_eq, run_bind, run_lit, Option.bind_eq_some_iff,
    Option.map_eq_some_iff] at h
  obtain ⟨_, ⟨input, hafter, rfl⟩, ⟨cs, offset', rest'⟩, hchars, hlast⟩ := h
  cases hlast
  obtain ⟨text', rfl, -, hspans⟩ := confined_commentChar.exists_spansAll hchars
  obtain ⟨rfl, hcs⟩ := spansAll_commentChar hspans
  have htext := eq_append_of_after hafter
  rw [← List.append_assoc] at htext
  exact ⟨cs, List.append_cancel_right htext, hcs⟩

theorem spacing_of_spaceItem {offset : Nat} {text rest more : List UInt8}
    (h : spaceItem.Spans () offset text rest) (hmore : Spacing more) : Spacing (text ++ more) := by
  simp only [Spans, spaceItem, run_orElse, run_bind] at h
  cases hr : (satisfy "[ \\t\\r\\n]" isBlank).run ⟨offset, text ++ rest⟩ with
  | some r =>
    obtain ⟨b, c⟩ := r
    rw [hr] at h
    cases h
    obtain ⟨htext, hb⟩ := run_satisfy_eq_some hr
    change text ++ rest = [b] ++ rest at htext
    obtain rfl := List.append_cancel_right htext
    exact .blank hb hmore
  | none =>
    rw [hr] at h
    obtain ⟨cs, rfl, hcs⟩ := spans_comment h
    exact .comment hcs hmore

/-- What `space` reads are blanks and comments. -/
theorem spacing_of_space {offset offset' : Nat} {input rest : List UInt8}
    (h : space.run ⟨offset, input⟩ = some ((), ⟨offset', rest⟩)) :
    ∃ text, input = text ++ rest ∧ offset' = offset + text.length ∧ Spacing text := by
  have hitems : ∀ {as offset text rest}, spaceItem.SpansAll as offset text rest →
      Spacing text := by
    intro as offset text rest hspans
    induction hspans with
    | nil => exact .nil
    | cons hfirst _ ih => exact spacing_of_spaceItem hfirst ih
  simp only [space_eq, run_described, run_bind, Option.bind_eq_some_iff] at h
  obtain ⟨⟨as, c⟩, hmany, hlast⟩ := h
  cases hlast
  obtain ⟨text, rfl, rfl, hspans⟩ := confined_spaceItem.exists_spansAll hmany
  exact ⟨text, rfl, rfl, hitems hspans⟩

end Grammar

/-! ## The end of a program -/

/-- The parts of the text of a program, which `rest` follows: the line that names the first
function, if there is one, then the functions, each with the blanks and comments before it, and last
blanks and comments. -/
def SourceFile.Layout (f : SourceFile) (text rest : List UInt8) : Prop :=
  ∃ first functions spacing, text = first ++ functions ++ spacing ∧
    Grammar.mainName.SpansAll f.main.toList 0 first (functions ++ (spacing ++ rest)) ∧
    Grammar.definition.SpansAll f.definitions first.length functions (spacing ++ rest) ∧
    Grammar.Spacing spacing

namespace Grammar

open RegisterTransfer.Parser

/-- A file is read up to a place where nothing can be read, and all before it are its parts. -/
theorem layout_of_file {text : List UInt8} {f : SourceFile} {c : Cursor}
    (h : file.run ⟨0, text⟩ = some (f, c)) :
    ∃ read rest, text = read ++ rest ∧ c = ⟨read.length, rest⟩ ∧ Readable read ∧
      Unreadable rest ∧ f.Layout read rest := by
  obtain ⟨offset, rest⟩ := c
  obtain ⟨read, htext, hoffset, hread, -⟩ := confined_file.exists_spans h
  simp only [file, run_rule, run_bind, Option.bind_eq_some_iff] at h
  obtain ⟨⟨main, offset₁, input₁⟩, hmain, ⟨ds, offset₂, input₂⟩, hdefinitions,
    ⟨_, offset₃, input₃⟩, hend, hlast⟩ := h
  cases hlast
  simp only [endOfFile, run_described, run_bind, Option.bind_eq_some_iff] at hend
  obtain ⟨⟨_, c₄⟩, hspace, habsent⟩ := hend
  obtain ⟨hstop, rfl⟩ := run_absent_eq_some habsent
  obtain ⟨first, rfl, rfl, hfirst⟩ := confined_mainName.exists_spansAll_optional hmain
  obtain ⟨functions, rfl, rfl, hfunctions⟩ := confined_definition.exists_spansAll hdefinitions
  obtain ⟨spacing, rfl, -, hspacing⟩ := spacing_of_space hspace
  rw [Nat.zero_add] at hfunctions hoffset
  refine ⟨read, rest, htext, by rw [hoffset], hread, run_anyChar_eq_none_iff.mp hstop,
    first, functions, spacing, ?_, hfirst, hfunctions, hspacing⟩
  rw [← List.append_assoc, ← List.append_assoc] at htext
  exact (List.append_cancel_right htext).symm

end Grammar

namespace Program

theorem parse_eq_ok_iff {text : List UInt8} {p : Program} :
    Program.parse text = .ok p ↔
      ∃ f c, Grammar.file.run ⟨0, text⟩ = some (f, c) ∧ f.program = .ok p := by
  simp only [Program.parse, Parser.parse]
  cases hr : Grammar.file.run ⟨0, text⟩ with
  | none => simp [Except.bind]
  | some r =>
    obtain ⟨f, c⟩ := r
    simp [Except.bind]

/-- A text falls into a readable part and a rest that starts with no character or with U+FFFD.  It
is the text of a program if and only if the readable part is, and then of the same program.  The
parts of the file are all of the readable part, and reading ends there: at the end of the text if
all of it is readable, and before bytes that are dropped if not. -/
theorem parse_ends (text : List UInt8) :
    ∃ read rest, text = read ++ rest ∧ Readable read ∧ Unreadable rest ∧
      (rest = [] ↔ Readable text) ∧
      ∀ p, (Program.parse text = .ok p ↔ Program.parse read = .ok p) ∧
        (Program.parse text = .ok p → ∃ f, f.program = .ok p ∧
          Grammar.file.run ⟨0, text⟩ = some (f, ⟨read.length, rest⟩) ∧ f.Layout read rest) := by
  obtain ⟨read, rest, rfl, hread, hrest⟩ := exists_readable_append text
  have hblind : Grammar.file.run ⟨0, read ++ rest⟩ =
      (Grammar.file.run ⟨0, read⟩).map fun r => (r.1, r.2.followedBy rest) :=
    Grammar.confined_file.run_append hread hrest
  refine ⟨read, rest, rfl, hread, hrest, ?_, fun p => ⟨?_, fun hparse => ?_⟩⟩
  · constructor
    · rintro rfl
      rwa [List.append_nil]
    · intro hall
      exact (hread.of_append hall).eq_nil hrest
  · rw [parse_eq_ok_iff, parse_eq_ok_iff, hblind]
    cases Grammar.file.run ⟨0, read⟩ with
    | none => simp
    | some r =>
      obtain ⟨f, c⟩ := r
      simp
  · obtain ⟨f, c, hrun, hprogram⟩ := parse_eq_ok_iff.mp hparse
    obtain ⟨read', rest', htext, rfl, hread', hrest', hlayout⟩ := Grammar.layout_of_file hrun
    obtain ⟨rfl, rfl⟩ := hread.split_unique hread' hrest hrest' htext
    exact ⟨f, hprogram, hrun, hlayout⟩

/-- The text of two functions, with a byte between them that starts no character. -/
def severedText : List UInt8 :=
  encode "func main() sig():int stack 0 entry 1 \x7b 1: return \x7d\n" ++
    0xFF :: encode "\nfunc f() sig():int stack 0 entry 1 \x7b 1: return \x7d\n"

/-- The program of the first of them. -/
def severed : Program where
  main := "main"
  functions := .ofList [
    ("main", some ⟨"main", ⟨[], .int, false⟩, [], 0, 1, ⟨#[none, some (.ret none)]⟩⟩)]

theorem parse_severedText : Program.parse severedText = .ok severed := by decide +kernel

theorem offset_severedText :
    (Grammar.file.run ⟨0, severedText⟩).map (fun r => r.2.offset) = some 52 := by
  decide +kernel

theorem length_severedText : severedText.length = 103 := by decide +kernel

/-- The text is accepted, but the second function is not in the program: reading ends at offset 52,
before the end of the text. -/
theorem parse_drops_second_function :
    Program.parse severedText = .ok severed ∧ severed.functions.keys = ["main"] ∧
      ∃ f c, Grammar.file.run ⟨0, severedText⟩ = some (f, c) ∧ c.offset < severedText.length := by
  obtain ⟨⟨f, c⟩, hrun, hoffset⟩ := Option.map_eq_some_iff.mp offset_severedText
  refine ⟨parse_severedText, rfl, f, c, hrun, ?_⟩
  rw [length_severedText, show c.offset = 52 from hoffset]
  decide

/-- What is dropped is what cannot be read, and all that comes after it. -/
theorem parse_ends_severed :
    ∃ read rest, severedText = read ++ rest ∧ Unreadable rest ∧ rest ≠ [] ∧
      Program.parse read = .ok severed := by
  obtain ⟨read, rest, htext, -, hrest, -, hparse⟩ := parse_ends severedText
  obtain ⟨hsame, hends⟩ := hparse severed
  obtain ⟨f, -, hrun, -⟩ := hends parse_severedText
  refine ⟨read, rest, htext, hrest, ?_, hsame.mp parse_severedText⟩
  rintro rfl
  have hoffset := offset_severedText
  rw [hrun, Option.map_some, Option.some.injEq] at hoffset
  change read.length = 52 at hoffset
  have hlength := length_severedText
  rw [htext, List.append_nil] at hlength
  omega

end Program

end RegisterTransfer
