import RegisterTransfer.Proofs.Tokens
import RegisterTransfer.Proofs.Utf8Decoding
set_option autoImplicit false

/-!
# Parsers that stay within readable text

`Parser.Confined` says of a parser that it reads whole characters only, and that it is blind to
whatever stands behind a readable text: followed by bytes that cannot be read, the text gives the
same value, and leaves the same bytes before them.  The combinators keep this, and every rule of the
grammar has it.
-/

namespace RegisterTransfer

open RegisterTransfer.Utf8

/-! ## Parsers confined to readable text -/

namespace Cursor

/-- The same place in a text that goes on with `more`. -/
def followedBy (c : Cursor) (more : List UInt8) : Cursor := ⟨c.offset, c.rest ++ more⟩

/-- Between two places of a text stands a readable text of at least `n` bytes. -/
def Passes (n : Nat) (c c' : Cursor) : Prop :=
  ∃ read, Readable read ∧ n ≤ read.length ∧ c.rest = read ++ c'.rest ∧
    c'.offset = c.offset + read.length

variable {m n : Nat} {c c' c'' : Cursor}

theorem passes_refl (c : Cursor) : c.Passes 0 c :=
  ⟨[], .nil, Nat.le_refl _, rfl, rfl⟩

theorem Passes.trans (h : c.Passes m c') (h' : c'.Passes n c'') : c.Passes (m + n) c'' := by
  obtain ⟨read, hread, hm, hrest, hoffset⟩ := h
  obtain ⟨read', hread', hn, hrest', hoffset'⟩ := h'
  refine ⟨read ++ read', hread.append hread', ?_, ?_, ?_⟩
  · rw [List.length_append]
    omega
  · rw [hrest, hrest', List.append_assoc]
  · rw [hoffset', hoffset, List.length_append, Nat.add_assoc]

theorem Passes.mono (h : c.Passes n c') (hmn : m ≤ n) : c.Passes m c' := by
  obtain ⟨read, hread, hn, hplaces⟩ := h
  exact ⟨read, hread, Nat.le_trans hmn hn, hplaces⟩

theorem Passes.readable (h : c.Passes n c') (hc : Readable c.rest) : Readable c'.rest := by
  obtain ⟨read, hread, -, hrest, -⟩ := h
  rw [hrest] at hc
  exact hread.of_append hc

theorem Passes.length_le (h : c.Passes n c') : c'.rest.length + n ≤ c.rest.length := by
  obtain ⟨read, -, hn, hrest, -⟩ := h
  rw [hrest, List.length_append]
  omega

end Cursor

namespace Parser

variable {α β : Type} {m n : Nat}

/-- `p` reads whole characters, at least `n` bytes of them, and nothing that stands after a readable
text changes what it does in that text. -/
structure Confined (n : Nat) (p : Parser α) : Prop where
  passes : ∀ {c a c'}, p.run c = some (a, c') → c.Passes n c'
  blind : ∀ {c more}, Readable c.rest → Unreadable more →
    p.run (c.followedBy more) = (p.run c).map fun r => (r.1, r.2.followedBy more)

section Combinators

variable {p q : Parser α} {f : α → Parser β}

theorem confined_pure (a : α) : Confined 0 (pure a : Parser α) where
  passes := by
    intro c a' c' hrun
    cases hrun
    exact c.passes_refl
  blind _ _ := rfl

theorem confined_offset : Confined 0 offset where
  passes := by
    intro c a c' hrun
    cases hrun
    exact c.passes_refl
  blind _ _ := rfl

theorem confined_refuse (want : String) : Confined n (refuse want : Parser α) where
  passes hrun := nomatch hrun
  blind _ _ := rfl

theorem Confined.rule (h : Confined n p) {name : String} : Confined n (rule name p) :=
  ⟨h.passes, h.blind⟩

theorem Confined.described (h : Confined n p) {name want : String} :
    Confined n (described name want p) :=
  ⟨h.passes, h.blind⟩

theorem Confined.mono (h : Confined n p) (hmn : m ≤ n) : Confined m p where
  passes hrun := (h.passes hrun).mono hmn
  blind := h.blind

theorem run_bind_eq_some {b : β} {c c' : Cursor} (h : (p >>= f).run c = some (b, c')) :
    ∃ a mid, p.run c = some (a, mid) ∧ (f a).run mid = some (b, c') := by
  obtain ⟨⟨a, mid⟩, ha, hb⟩ := Option.bind_eq_some_iff.mp h
  exact ⟨a, mid, ha, hb⟩

theorem Confined.bind (hp : Confined m p) (hf : ∀ a, Confined n (f a)) :
    Confined (m + n) (p >>= f) where
  passes := by
    intro c b c' hrun
    obtain ⟨a, mid, ha, hb⟩ := run_bind_eq_some hrun
    exact (hp.passes ha).trans ((hf a).passes hb)
  blind := by
    intro c more hc hmore
    rw [run_bind, run_bind, hp.blind hc hmore]
    cases hrun : p.run c with
    | none => rfl
    | some r => exact (hf r.1).blind ((hp.passes hrun).readable hc) hmore

/-- A sequence takes the bytes of its first part. -/
theorem Confined.first (hp : Confined m p) (hf : ∀ a, Confined n (f a)) : Confined m (p >>= f) :=
  (hp.bind hf).mono (Nat.le_add_right m n)

/-- A sequence takes the bytes of its second part. -/
theorem Confined.next (hp : Confined m p) (hf : ∀ a, Confined n (f a)) : Confined n (p >>= f) :=
  (hp.bind hf).mono (Nat.le_add_left n m)

theorem Confined.orElse (hp : Confined n p) (hq : Confined n q) : Confined n (p <|> q) where
  passes := by
    intro c a c' hrun
    rw [run_orElse] at hrun
    cases hr : p.run c with
    | none =>
      rw [hr] at hrun
      exact hq.passes hrun
    | some r =>
      rw [hr] at hrun
      cases hrun
      exact hp.passes hr
  blind := by
    intro c more hc hmore
    rw [run_orElse, run_orElse, hp.blind hc hmore]
    cases hr : p.run c with
    | none => exact hq.blind hc hmore
    | some r => rfl

theorem confined_ite {P : Prop} [Decidable P] (hp : Confined n p) (hq : Confined n q) :
    Confined n (if P then p else q) := by
  split
  · exact hp
  · exact hq

theorem Confined.map (hp : Confined n p) (g : α → β) : Confined n (g <$> p) :=
  hp.first fun a => confined_pure (g a)

theorem Confined.optional (hp : Confined n p) : Confined 0 (optional p) :=
  ((hp.map some).mono (Nat.zero_le n)).orElse (confined_pure none)

theorem Confined.absent (hp : Confined n p) {want : String} : Confined 0 (absent want p) where
  passes := by
    intro c a c' hrun
    simp only [Parser.absent] at hrun
    split at hrun
    · cases hrun
    · cases hrun
      exact c.passes_refl
  blind := by
    intro c more hc hmore
    simp only [Parser.absent, hp.blind hc hmore, Option.isSome_map]
    split <;> rfl

theorem collect_of_eq_none {step : Cursor → Option (α × Cursor)} {c : Cursor} (h : step c = none)
    (fuel : List UInt8) : collect step fuel c = ([], c) := by
  cases fuel with
  | nil => rfl
  | cons b fuel => simp only [collect, h]

theorem Confined.passes_collect (hp : Confined n p) (fuel : List UInt8) (c : Cursor) :
    c.Passes 0 (collect p.run fuel c).2 := by
  induction fuel generalizing c with
  | nil => exact c.passes_refl
  | cons b fuel ih =>
    cases hr : p.run c with
    | none => simpa only [collect, hr] using c.passes_refl
    | some r =>
      simp only [collect, hr]
      exact ((hp.passes hr).trans (ih r.2)).mono (Nat.zero_le _)

/-- Nothing is left to read at the end of a text. -/
theorem Confined.run_eq_none {c : Cursor} (hp : Confined 1 p) (hc : c.rest.length ≤ 0) :
    p.run c = none := by
  rw [Option.eq_none_iff_forall_not_mem]
  intro r hr
  have hlength := (hp.passes hr).length_le
  omega

/-- Where no more things are read, none can be read. -/
theorem Confined.run_eq_none_of_many {c c' : Cursor} {as : List α} (hp : Confined 1 p)
    (h : (Parser.many p).run c = some (as, c')) : p.run c' = none := by
  have hcollect : ∀ (fuel : List UInt8) {c : Cursor}, c.rest.length ≤ fuel.length →
      p.run (collect p.run fuel c).2 = none := by
    intro fuel
    induction fuel with
    | nil => exact hp.run_eq_none
    | cons b fuel ih =>
      intro c hfuel
      cases hr : p.run c with
      | none => rw [collect_of_eq_none hr, hr]
      | some r =>
        have hlength := (hp.passes hr).length_le
        rw [List.length_cons] at hfuel
        simp only [collect, hr]
        exact ih (by omega)
  have heq : collect p.run c.rest c = (as, c') := Option.some.inj h
  have hnone := hcollect c.rest (Nat.le_refl _)
  rwa [heq] at hnone

/-- Two bounds that are at least as long as the readable text do alike, since every thing read
shortens it. -/
theorem Confined.blind_collect {more : List UInt8} (hp : Confined 1 p) (hmore : Unreadable more)
    {fuel fuel' : List UInt8} {c : Cursor} (hc : Readable c.rest)
    (hfuel : c.rest.length ≤ fuel.length) (hfuel' : c.rest.length ≤ fuel'.length) :
    collect p.run fuel' (c.followedBy more) =
      ((collect p.run fuel c).1, (collect p.run fuel c).2.followedBy more) := by
  induction fuel generalizing fuel' c with
  | nil =>
    have hnone := hp.run_eq_none hfuel
    exact collect_of_eq_none (by rw [hp.blind hc hmore, hnone]; rfl) fuel'
  | cons b fuel ih =>
    cases hr : p.run c with
    | none =>
      rw [collect_of_eq_none hr]
      exact collect_of_eq_none (by rw [hp.blind hc hmore, hr]; rfl) fuel'
    | some r =>
      have hlength := (hp.passes hr).length_le
      rw [List.length_cons] at hfuel
      cases fuel' with
      | nil =>
        rw [List.length_nil] at hfuel'
        omega
      | cons b' fuel' =>
        rw [List.length_cons] at hfuel'
        simp only [collect, hr, hp.blind hc hmore, Option.map_some]
        rw [ih ((hp.passes hr).readable hc) (by omega) (by omega)]

/-- Things of at least one byte each are read one after another, whether or not something that
cannot be read follows: the bytes of the text itself are enough of a bound. -/
theorem Confined.many (hp : Confined 1 p) : Confined 0 (many p) where
  passes := by
    intro c as c' hrun
    have heq : collect p.run c.rest c = (as, c') := Option.some.inj hrun
    have hpasses := hp.passes_collect c.rest c
    rwa [heq] at hpasses
  blind := by
    intro c more hc hmore
    refine congrArg some (hp.blind_collect hmore hc (Nat.le_refl _) ?_)
    change c.rest.length ≤ (c.rest ++ more).length
    rw [List.length_append]
    exact Nat.le_add_right _ _

theorem Confined.many1 (hp : Confined 1 p) : Confined 1 (many1 p) :=
  hp.first fun a => hp.many.next fun as => confined_pure (a :: as)

end Combinators

/-! ## Tokens -/

/-- A token is confined to readable text if its step takes whole characters and fares alike. -/
theorem confined_token {want : String} {step : List UInt8 → Option (α × Nat × List UInt8)}
    (hpasses : ∀ {input a k rest}, step input = some (a, k, rest) →
      ∃ read, Readable read ∧ n ≤ read.length ∧ input = read ++ rest ∧ k = read.length)
    (hblind : ∀ {input more}, Readable input → Unreadable more →
      step (input ++ more) = (step input).map fun r => (r.1, r.2.1, r.2.2 ++ more)) :
    Confined n (token want step) where
  passes := by
    intro c a c' hrun
    simp only [token, Option.map_eq_some_iff] at hrun
    obtain ⟨⟨a', k, rest⟩, hstep, heq⟩ := hrun
    cases heq
    obtain ⟨read, hread, hn, hinput, rfl⟩ := hpasses hstep
    exact ⟨read, hread, hn, hinput, rfl⟩
  blind := by
    intro c more hc hmore
    simp only [token, Cursor.followedBy, hblind hc hmore, Option.map_map]
    rfl

/-- A byte of a class of ASCII bytes. -/
theorem confined_satisfy {want : String} {member : UInt8 → Bool}
    (hascii : ∀ b, member b = true → b.toNat < 0x80) : Confined 1 (satisfy want member) := by
  apply confined_token
  · intro input a k rest hstep
    cases input with
    | nil => cases hstep
    | cons b input =>
      simp only [Option.ite_none_right_eq_some, Option.some.injEq, Prod.mk.injEq] at hstep
      obtain ⟨hb, rfl, rfl, rfl⟩ := hstep
      exact ⟨[b], (readable_cons_iff (hascii b hb)).mpr .nil, Nat.le_refl _, rfl, rfl⟩
  · intro input more hinput hmore
    cases input with
    | nil =>
      cases more with
      | nil => rfl
      | cons b more =>
        exact if_neg fun hb => hmore.not_ascii (hascii b hb)
    | cons b input =>
      simp only [List.cons_append]
      split <;> rfl

theorem run_anyChar_eq_some_iff {ch : Char} {c c' : Cursor} :
    anyChar.run c = some (ch, c') ↔
      ch ≠ replacement ∧ c.rest = String.utf8EncodeChar ch ++ c'.rest ∧
        c'.offset = c.offset + ch.utf8Size := by
  simp only [anyChar, token, Option.map_eq_some_iff, Prod.mk.injEq, Prod.exists]
  constructor
  · rintro ⟨ch', k, rest, hstep, rfl, rfl⟩
    split at hstep
    case h_1 d y hdecode =>
      simp only [Option.ite_none_left_eq_some, Option.some.injEq, Prod.mk.injEq] at hstep
      obtain ⟨hne, rfl, rfl, rfl⟩ := hstep
      exact ⟨hne, eq_of_decode?_eq_some hdecode, rfl⟩
    case h_2 => cases hstep
  · rintro ⟨hne, hrest, hoffset⟩
    refine ⟨ch, ch.utf8Size, c'.rest, ?_, rfl, ?_⟩
    · rw [hrest, decode?_utf8EncodeChar]
      exact if_neg hne
    · rw [← hoffset]

/-- Where no character is read, none can be. -/
theorem run_anyChar_eq_none_iff {c : Cursor} : anyChar.run c = none ↔ Unreadable c.rest := by
  rw [Option.eq_none_iff_forall_not_mem]
  constructor
  · intro h ch y hrest
    by_contra hne
    exact h (ch, ⟨c.offset + ch.utf8Size, y⟩) (run_anyChar_eq_some_iff.mpr ⟨hne, hrest, rfl⟩)
  · rintro h ⟨ch, c'⟩ hrun
    obtain ⟨hne, hrest, -⟩ := run_anyChar_eq_some_iff.mp hrun
    exact hne (h ch c'.rest hrest)

theorem confined_anyChar : Confined 1 anyChar where
  passes := by
    intro c ch c' hrun
    obtain ⟨hne, hrest, hoffset⟩ := run_anyChar_eq_some_iff.mp hrun
    refine ⟨String.utf8EncodeChar ch, ?_, ?_, hrest, ?_⟩
    · simpa using Readable.char hne .nil
    · exact List.length_pos_iff.mpr (utf8EncodeChar_ne_nil ch)
    · rw [hoffset, String.length_utf8EncodeChar]
  blind := by
    rintro ⟨offset, input⟩ more hinput hmore
    cases hinput with
    | nil =>
      have hempty : anyChar.run ⟨offset, []⟩ = none := run_anyChar_eq_none_iff.mpr unreadable_nil
      rw [hempty]
      exact run_anyChar_eq_none_iff.mpr hmore
    | @char ch y hne _ =>
      have hread : anyChar.run ⟨offset, String.utf8EncodeChar ch ++ y⟩ =
          some (ch, ⟨offset + ch.utf8Size, y⟩) :=
        run_anyChar_eq_some_iff.mpr ⟨hne, rfl, rfl⟩
      rw [List.append_eq, hread]
      exact run_anyChar_eq_some_iff.mpr ⟨hne, List.append_assoc _ _ _, rfl⟩

theorem eq_append_of_after {text input rest : List UInt8} (h : after text input = some rest) :
    input = text ++ rest := by
  fun_induction after text input with
  | case1 => exact Option.some.inj h
  | case2 => cases h
  | case3 b text input ih => rw [ih h, List.cons_append]
  | case4 => cases h

theorem readable_of_ascii {text : List UInt8} (h : ∀ b ∈ text, b.toNat < 0x80) :
    Readable text := by
  induction text with
  | nil => exact .nil
  | cons b text ih =>
    exact (readable_cons_iff (h b (by simp))).mpr (ih fun d hd => h d (by simp [hd]))

theorem after_append_unreadable {text input more : List UInt8} (h : ∀ b ∈ text, b.toNat < 0x80)
    (hinput : Readable input) (hmore : Unreadable more) :
    after text (input ++ more) = (after text input).map fun rest => rest ++ more := by
  induction text generalizing input with
  | nil => simp only [after, Option.map_some]
  | cons b text ih =>
    cases input with
    | nil =>
      cases more with
      | nil => rfl
      | cons b' more =>
        refine if_neg ?_
        rintro rfl
        exact hmore.not_ascii (h b (by simp))
    | cons b' input =>
      simp only [List.cons_append, after]
      split
      case isFalse => rfl
      case isTrue heq =>
        subst heq
        exact ih (fun d hd => h d (by simp [hd])) ((readable_cons_iff (h b (by simp))).mp hinput)

/-- A text of one ASCII character or more. -/
def Ascii (text : String) : Bool :=
  0 < (Utf8.encode text).length && (Utf8.encode text).all fun b => b.toNat < 0x80

theorem confined_lit (text : String) (h : Ascii text = true) : Confined 1 (lit text) := by
  simp only [Ascii, Bool.and_eq_true, decide_eq_true_eq, List.all_eq_true] at h
  obtain ⟨hpos, hascii⟩ := h
  unfold lit
  apply confined_token
  · intro input a k rest hstep
    obtain ⟨rest', hafter, heq⟩ := Option.map_eq_some_iff.mp hstep
    cases heq
    exact ⟨_, readable_of_ascii hascii, hpos, eq_append_of_after hafter, rfl⟩
  · intro input more hinput hmore
    rw [after_append_unreadable hascii hinput hmore, Option.map_map, Option.map_map]
    rfl

end Parser

/-! ## The grammar is confined -/

namespace Grammar

open RegisterTransfer.Parser

theorem toNat_of_isBlank {b : UInt8} (h : isBlank b = true) : b.toNat < 0x80 := by
  simp only [isBlank, Bool.or_eq_true, beq_iff_eq] at h
  rcases h with ((rfl | rfl) | rfl) | rfl <;> decide

/-- A character of a comment. -/
def commentChar : Parser Char := do
  absent "!\"\\n\"" (lit "\n")
  anyChar

theorem confined_commentChar : Confined 1 commentChar :=
  (confined_lit "\n" rfl).absent.next fun _ => confined_anyChar

theorem comment_eq :
    comment = (do
      lit "//"
      let _ ← many commentChar) := rfl

theorem confined_comment : Confined 1 comment := by
  rw [comment_eq]
  exact (confined_lit "//" rfl).first fun _ => confined_commentChar.many.next fun _ =>
    confined_pure ()

/-- A blank or a comment. -/
def spaceItem : Parser Unit := (do let _ ← satisfy "[ \\t\\r\\n]" isBlank) <|> comment

theorem confined_spaceItem : Confined 1 spaceItem :=
  ((confined_satisfy fun _ => toNat_of_isBlank).first fun _ => confined_pure ()).orElse
    confined_comment

theorem space_eq :
    space = described "_" "space" (do
      let _ ← many spaceItem) := rfl

theorem confined_space : Confined 0 space := by
  rw [space_eq]
  exact (confined_spaceItem.many.next fun _ => confined_pure ()).described

theorem confined_wordEnd : Confined 0 wordEnd :=
  (confined_satisfy fun _ => toNat_of_isWord).rule.absent

theorem confined_mark (text : String) (h : Ascii text = true) : Confined 1 (mark text) :=
  confined_space.next fun _ => confined_lit text h

theorem confined_keyword (text : String) (h : Ascii text = true) : Confined 1 (keyword text) :=
  (confined_mark text h).first fun _ => confined_wordEnd

theorem confined_digits : Confined 1 digits :=
  (confined_satisfy fun _ h => toNat_of_isWord (isWord_of_isDigit h)).many1.first fun ds =>
    confined_wordEnd.next fun _ => confined_pure ds

theorem confined_word32 : Confined 1 word32 :=
  confined_digits.first fun _ => confined_ite (confined_pure _) (confined_refuse _)

theorem confined_point : Confined 1 point :=
  (confined_space.next fun _ => confined_word32).described

theorem confined_register : Confined 1 register :=
  ((confined_mark "x" rfl).next fun _ => confined_word32).described

theorem confined_number : Confined 1 number :=
  (confined_space.next fun _ => (confined_lit "-" rfl).optional.next fun _ =>
    confined_digits.first fun _ => confined_ite (confined_pure _) (confined_refuse _)).described

theorem confined_identifier : Confined 1 identifier :=
  (confined_space.next fun _ => confined_register.absent.next fun _ =>
    (confined_satisfy fun _ h => toNat_of_isWord (isWord_of_isWordStart h)).first fun first =>
      (confined_satisfy fun _ => toNat_of_isWord).many.next fun rest =>
        confined_pure (asciiText (first :: rest))).described

theorem confined_endOfFile : Confined 0 endOfFile :=
  (confined_space.next fun _ => confined_anyChar.absent).described

theorem confined_name {α : Type} (text : String) (h : Ascii text = true) (a : α) :
    Confined 1 (name text a) :=
  (confined_lit text h).first fun _ => confined_pure a

theorem confined_bracketed : Confined 1 bracketed :=
  (confined_mark "[" rfl).first fun _ => confined_number.next fun n =>
    (confined_mark "]" rfl).first fun _ => confined_pure n

theorem confined_registers : Confined 1 registers := by
  apply Confined.rule
  refine Confined.orElse ?_ ?_
  · exact (confined_mark "(" rfl).first fun _ => (confined_mark ")" rfl).next fun _ =>
      confined_pure []
  · exact (confined_mark "(" rfl).first fun _ => confined_register.next fun first =>
      ((confined_mark "," rfl).first fun _ => confined_register).many.next fun rest =>
      (confined_mark ")" rfl).next fun _ => confined_pure (first :: rest)

theorem confined_valueType : Confined 1 valueType := by
  apply Confined.described
  refine confined_space.next fun _ => Confined.first ?_ fun t =>
    confined_wordEnd.next fun _ => confined_pure t
  exact (confined_name "int" rfl _).orElse <| (confined_name "long" rfl _).orElse <|
    (confined_name "float" rfl _).orElse (confined_name "any" rfl _)

theorem confined_resultType : Confined 1 resultType := by
  apply Confined.described
  exact ((confined_keyword "void" rfl).first fun _ => confined_pure _).orElse confined_valueType

theorem confined_arguments : Confined 1 arguments := by
  apply Confined.rule
  refine Confined.orElse ((confined_mark "..." rfl).first fun _ => confined_pure _) ?_
  exact confined_valueType.first fun first =>
    ((confined_mark "," rfl).first fun _ => confined_valueType).many.next fun rest =>
    ((confined_mark "," rfl).first fun _ => confined_mark "..." rfl).optional.next fun more =>
    confined_pure (first :: rest, more.isSome)

theorem confined_signature : Confined 1 signature :=
  ((confined_keyword "sig" rfl).first fun _ => (confined_mark "(" rfl).next fun _ =>
    confined_arguments.optional.next fun _ => (confined_mark ")" rfl).next fun _ =>
    (confined_mark ":" rfl).next fun _ => confined_resultType.next fun _ => confined_pure _).rule

theorem confined_successor : Confined 1 successor :=
  ((confined_mark "->" rfl).first fun _ => confined_point).rule

theorem confined_operation : Confined 1 operation := by
  have hkeyword : ∀ text (o : Operation), Ascii text = true →
      Confined 1 (keyword text >>= fun _ => pure o) :=
    fun text o h => (confined_keyword text h).first fun _ => confined_pure o
  have hbracketed : ∀ text (o : Int64 → Operation), Ascii text = true →
      Confined 1 (mark text >>= fun _ => bracketed >>= fun n => pure (o n)) :=
    fun text o h => (confined_mark text h).first fun _ =>
      confined_bracketed.first fun n => confined_pure (o n)
  apply Confined.described
  refine (hkeyword "move" _ rfl).orElse <| (hbracketed "add" _ rfl).orElse <|
    (hkeyword "add" _ rfl).orElse <| (hkeyword "sub" _ rfl).orElse <|
    (hkeyword "mul" _ rfl).orElse <| (hbracketed "int" _ rfl).orElse <|
    (hbracketed "long" _ rfl).orElse ?_
  exact (confined_mark "funcaddr" rfl).first fun _ => (confined_mark "[" rfl).next fun _ =>
    confined_identifier.next fun _ => (confined_mark "]" rfl).next fun _ => confined_pure _

theorem confined_chunk : Confined 1 chunk := by
  apply Confined.described
  refine confined_space.next fun _ => Confined.first ?_ fun c =>
    confined_wordEnd.next fun _ => confined_pure c
  exact (confined_name "int32" rfl _).orElse <| (confined_name "int64" rfl _).orElse
    (confined_name "any64" rfl _)

theorem confined_addressing : Confined 1 addressing := by
  apply Confined.described
  refine Confined.orElse ?_ ?_
  · exact (confined_mark "indexed" rfl).first fun _ =>
      confined_bracketed.first fun _ => confined_pure _
  · exact (confined_mark "stack" rfl).first fun _ =>
      confined_bracketed.first fun _ => confined_pure _

theorem confined_callee : Confined 1 callee :=
  ((confined_register.first fun _ => confined_pure _).orElse
    (confined_identifier.first fun _ => confined_pure _)).rule

theorem confined_condition : Confined 1 condition := by
  apply Confined.described
  refine confined_space.next fun _ => Confined.first ?_ fun comparison =>
    confined_wordEnd.next fun _ => confined_bracketed.optional.next fun imm => confined_pure _
  exact (confined_name "eq" rfl _).orElse <| (confined_name "ne" rfl _).orElse <|
    (confined_name "lt" rfl _).orElse <| (confined_name "le" rfl _).orElse <|
    (confined_name "gt" rfl _).orElse (confined_name "ge" rfl _)

/-! ### Instructions, functions and files -/

theorem confined_nop : Confined 1 nop :=
  ((confined_keyword "nop" rfl).first fun _ => confined_successor.first fun _ =>
    confined_pure _).rule

theorem confined_ret : Confined 1 ret :=
  ((confined_keyword "return" rfl).first fun _ => confined_register.optional.first fun _ =>
    confined_pure _).rule

theorem confined_store : Confined 1 store :=
  ((confined_keyword "store" rfl).first fun _ => confined_chunk.next fun _ =>
    confined_addressing.next fun _ => confined_registers.next fun _ =>
      (confined_mark "," rfl).next fun _ => confined_register.next fun _ =>
        confined_successor.first fun _ => confined_pure _).rule

theorem confined_tailcall : Confined 1 tailcall :=
  ((confined_keyword "tailcall" rfl).first fun _ => confined_callee.next fun _ =>
    confined_registers.next fun _ => confined_signature.first fun _ => confined_pure _).rule

theorem confined_branch : Confined 1 branch :=
  ((confined_keyword "if" rfl).first fun _ => confined_condition.next fun _ =>
    confined_registers.next fun _ => confined_successor.next fun _ =>
    (confined_mark "," rfl).next fun _ => confined_point.first fun _ => confined_pure _).rule

theorem confined_load (dest : Reg) : Confined 1 (load dest) :=
  ((confined_keyword "load" rfl).first fun _ => confined_chunk.next fun _ =>
    confined_addressing.next fun _ => confined_registers.next fun _ =>
      confined_successor.first fun _ => confined_pure _).rule

theorem confined_call (dest : Reg) : Confined 1 (call dest) :=
  ((confined_keyword "call" rfl).first fun _ => confined_callee.next fun _ =>
    confined_registers.next fun _ => confined_signature.next fun _ =>
      confined_successor.first fun _ => confined_pure _).rule

theorem confined_compute (dest : Reg) : Confined 1 (compute dest) :=
  (confined_operation.first fun _ => confined_registers.next fun _ =>
    confined_successor.first fun _ => confined_pure _).rule

theorem confined_assign : Confined 1 assign :=
  (confined_register.first fun dest => (confined_mark "=" rfl).next fun _ =>
    (confined_load dest).orElse ((confined_call dest).orElse (confined_compute dest))).rule

theorem confined_instr : Confined 1 instr :=
  (confined_nop.orElse <| confined_ret.orElse <| confined_store.orElse <|
    confined_tailcall.orElse <| confined_branch.orElse confined_assign).rule

theorem confined_line : Confined 1 line :=
  (confined_space.next fun _ => confined_offset.next fun _ => confined_point.first fun _ =>
    (confined_mark ":" rfl).next fun _ => confined_instr.first fun _ => confined_pure _).rule

theorem confined_definition : Confined 1 definition :=
  (confined_space.next fun _ => confined_offset.next fun _ =>
    (confined_lit "func" rfl).first fun _ => confined_wordEnd.next fun _ =>
    confined_identifier.next fun _ => confined_registers.next fun _ =>
    confined_signature.next fun _ =>
    (confined_keyword "stack" rfl).next fun _ => confined_number.next fun _ =>
    (confined_keyword "entry" rfl).next fun _ => confined_point.next fun _ =>
    (confined_mark "\x7b" rfl).next fun _ => confined_line.many.next fun _ =>
    (confined_mark "\x7d" rfl).first fun _ => confined_pure _).rule

theorem confined_mainName : Confined 1 mainName :=
  ((confined_keyword "main" rfl).first fun _ => confined_identifier).rule

theorem confined_file : Confined 0 file :=
  (confined_mainName.optional.next fun _ => confined_definition.many.next fun _ =>
    confined_endOfFile.next fun _ => confined_pure _).rule

end Grammar

end RegisterTransfer
