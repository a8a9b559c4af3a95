import RegisterTransfer.Grammar
import RegisterTransfer.Proofs.Reading
import RegisterTransfer.Proofs.Utf8Decoding
set_option autoImplicit false

/-!
# Tokens

How the tokens of the format are read back from their texts.  Blanks belong to the token after
them, so every lemma has a blank text `sep` in front.  Numbers, registers and identifiers are words,
and are read back where a word ends; an identifier, moreover, is a word that no register is written
like.
-/

namespace RegisterTransfer

namespace Grammar

open RegisterTransfer.Parser

/-! ## Blanks and the ends of words -/

/-- A text of blanks only. -/
def Blank (sep : String) : Prop := (Utf8.encode sep).all isBlank = true

instance (sep : String) : Decidable (Blank sep) :=
  inferInstanceAs (Decidable ((Utf8.encode sep).all isBlank = true))

/-- An input at which neither a blank nor a comment stands. -/
def Solid (input : List UInt8) : Prop := ∀ b ∈ input.head?, isBlank b = false ∧ b ≠ 0x2F

/-- An input at which no word goes on. -/
def WordBreak (input : List UInt8) : Prop := ∀ b ∈ input.head?, isWord b = false

theorem isWord_of_isDigit {b : UInt8} (h : isDigit b = true) : isWord b = true := by
  simp [isWord, h]

theorem isWord_of_isWordStart {b : UInt8} (h : isWordStart b = true) : isWord b = true := by
  simp [isWord, h]

theorem isWord_of_isBlank {b : UInt8} (h : isBlank b = true) : isWord b = false := by
  simp only [isBlank, Bool.or_eq_true, beq_iff_eq] at h
  rcases h with ((rfl | rfl) | rfl) | rfl <;> decide

/-- A byte of a word is neither blank nor a slash. -/
theorem solid_of_isWord {b : UInt8} (h : isWord b = true) (input : List UInt8) :
    Solid (b :: input) := by
  intro b' hb'
  cases Option.mem_some.mp hb'
  constructor
  · by_contra hblank
    rw [Bool.not_eq_false] at hblank
    rw [isWord_of_isBlank hblank] at h
    cases h
  · rintro rfl
    exact absurd h (by decide)

theorem wordBreak_of_isBlank {b : UInt8} (h : isBlank b = true) (input : List UInt8) :
    WordBreak (b :: input) := by
  intro b' hb'
  cases Option.mem_some.mp hb'
  exact isWord_of_isBlank h

/-- A text that starts with a byte of which `member` holds. -/
def StartsWith (member : UInt8 → Bool) (text : String) : Bool := (Utf8.encode text).head?.any member

/-- The first byte of a text is the first byte of every input that the text starts. -/
theorem head?_append_of_startsWith {member : UInt8 → Bool} {text : String}
    (h : StartsWith member text = true) (rest : List UInt8) :
    ∃ b bytes, Utf8.encode text ++ rest = b :: bytes ∧ member b = true := by
  unfold StartsWith at h
  cases hbytes : Utf8.encode text with
  | nil => simp [hbytes] at h
  | cons b bytes => exact ⟨b, bytes ++ rest, rfl, by simpa [hbytes] using h⟩

theorem solid_append {text : String} (rest : List UInt8)
    (h : StartsWith (fun b => !isBlank b && b != 0x2F) text = true) :
    Solid (Utf8.encode text ++ rest) := by
  obtain ⟨b, bytes, hbytes, hb⟩ := head?_append_of_startsWith h rest
  rw [hbytes]
  intro b' hb'
  cases Option.mem_some.mp hb'
  simpa using hb

theorem wordBreak_append {text : String} (rest : List UInt8)
    (h : StartsWith (fun b => !isWord b) text = true) : WordBreak (Utf8.encode text ++ rest) := by
  obtain ⟨b, bytes, hbytes, hb⟩ := head?_append_of_startsWith h rest
  rw [hbytes]
  intro b' hb'
  cases Option.mem_some.mp hb'
  simpa using hb

/-- The end of a word is seen from the first part of what follows. -/
theorem wordBreak_text {text : String} (more : String) (rest : List UInt8)
    (h : StartsWith (fun b => !isWord b) text = true) :
    WordBreak (Utf8.encode (text ++ more) ++ rest) := by
  rw [Utf8.encode_append, List.append_assoc]
  exact wordBreak_append _ h

/-! ## Fixed texts -/

theorem run_lit (text : String) (offset : Nat) (input : List UInt8) :
    (lit text).run ⟨offset, input⟩ = (after (Utf8.encode text) input).map fun rest =>
      ((), ⟨offset + (Utf8.encode text).length, rest⟩) := by
  simp only [lit, token, Option.map_map]
  rfl

theorem after_append (text input : List UInt8) : after text (text ++ input) = some input := by
  induction text with
  | nil => rfl
  | cons b text ih => simpa [after] using ih

theorem reads_lit (text : String) : Reads (lit text) text Anything (· = ()) := by
  intro offset rest _
  refine ⟨(), offset + (Utf8.encode text).length, rfl, ?_⟩
  rw [run_lit, after_append]
  rfl

theorem refuses_lit {text : String} {input : List UInt8}
    (h : after (Utf8.encode text) input = none) : Refuses (lit text) input := by
  intro offset
  rw [run_lit, h]
  rfl

/-- Two texts that differ at some byte before either ends. -/
def mismatch : List UInt8 → List UInt8 → Bool
  | b :: text, b' :: text' => b != b' || mismatch text text'
  | _, _ => false

theorem after_eq_none_of_mismatch {text text' : List UInt8} (h : mismatch text text' = true)
    (rest : List UInt8) : after text (text' ++ rest) = none := by
  induction text generalizing text' with
  | nil => simp [mismatch] at h
  | cons b text ih =>
    cases text' with
    | nil => simp [mismatch] at h
    | cons b' text' =>
      rw [List.cons_append, after]
      split
      case isTrue heq =>
        apply ih
        simpa [mismatch, heq] using h
      case isFalse => rfl

theorem refuses_lit_of_mismatch {text text' : String}
    (h : mismatch (Utf8.encode text) (Utf8.encode text') = true) (rest : List UInt8) :
    Refuses (lit text) (Utf8.encode text' ++ rest) :=
  refuses_lit (after_eq_none_of_mismatch h rest)

/-! ## Blanks -/

theorem refuses_comment {input : List UInt8} (h : Solid input) : Refuses comment input := by
  apply Refuses.bind
  apply refuses_lit
  cases input with
  | nil => rfl
  | cons b input =>
    have hb := (h b rfl).2
    exact if_neg fun heq => hb heq.symm

/-- Blanks are skipped up to the first byte that is none and starts no comment. -/
theorem run_space {sep : String} (hsep : Blank sep) {rest : List UInt8} (hrest : Solid rest)
    (offset : Nat) : ∃ offset',
      space.run ⟨offset, Utf8.encode sep ++ rest⟩ = some ((), ⟨offset', rest⟩) := by
  let item : Parser Unit := (do let _ ← satisfy "[ \\t\\r\\n]" isBlank) <|> comment
  have hitem : ∀ b ∈ Utf8.encode sep, ∀ offset tail, Anything tail → ∃ a offset',
      True ∧ item.run ⟨offset, [b] ++ tail⟩ = some (a, ⟨offset', tail⟩) := by
    intro b hb offset tail _
    have hblank : isBlank b = true := List.all_eq_true.mp hsep b hb
    exact ⟨(), offset + 1, trivial, by simp [item, satisfy, token, hblank]⟩
  have hstop : Refuses item rest := by
    refine Refuses.orElse (Refuses.bind ?_) (refuses_comment hrest)
    intro offset
    cases rest with
    | nil => rfl
    | cons b rest => simp [satisfy, token, (hrest b rfl).1]
  obtain ⟨as, offset', _, hrun⟩ := run_many (R := fun _ _ => True) hitem (fun _ _ _ => trivial)
    (by simp) trivial hstop offset
  refine ⟨offset', ?_⟩
  rw [show (Utf8.encode sep).flatMap (fun b => [b]) = Utf8.encode sep by simp] at hrun
  change ((many item >>= fun _ => pure ()).run ⟨offset, Utf8.encode sep ++ rest⟩) = _
  rw [run_bind, hrun]
  rfl

section Spaced

variable {α : Type} {q : Parser α} {sep text : String} {F : List UInt8 → Prop} {Q : α → Prop}

/-- A token takes the blanks before it. -/
theorem reads_spaced (hq : Reads q text F Q) (hsep : Blank sep)
    (hsolid : ∀ rest, F rest → Solid (Utf8.encode text ++ rest)) :
    Reads (space >>= fun _ => q) (sep ++ text) F Q := by
  intro offset rest hrest
  obtain ⟨offset', hspace⟩ := run_space hsep (hsolid rest hrest) offset
  obtain ⟨a, offset'', ha, hrun⟩ := hq offset' rest hrest
  refine ⟨a, offset'', ha, ?_⟩
  rw [Utf8.encode_append, List.append_assoc, run_bind, hspace]
  exact hrun

theorem refuses_spaced (sep : String) (hsep : Blank sep) {input : List UInt8} (hsolid : Solid input)
    (hq : Refuses q input) : Refuses (space >>= fun _ => q) (Utf8.encode sep ++ input) := by
  intro offset
  obtain ⟨offset', hspace⟩ := run_space hsep hsolid offset
  rw [run_bind, hspace]
  exact hq offset'

end Spaced

/-! ## Marks and keywords -/

/-- An input that starts, after blanks, with a text that is itself no blank. -/
def Starts (text : String) (input : List UInt8) : Prop :=
  ∃ sep rest, Blank sep ∧ Solid (Utf8.encode text ++ rest) ∧
    input = Utf8.encode sep ++ (Utf8.encode text ++ rest)

theorem starts_append (sep text : String) (rest : List UInt8) (hsep : Blank sep)
    (h : StartsWith (fun b => !isBlank b && b != 0x2F) text = true) :
    Starts text (Utf8.encode (sep ++ text) ++ rest) :=
  ⟨sep, rest, hsep, solid_append rest h, by rw [Utf8.encode_append, List.append_assoc]⟩

/-- The first part of a text starts the input that the text is put in front of. -/
theorem starts_text (sep text more : String) (rest : List UInt8) (hsep : Blank sep)
    (h : StartsWith (fun b => !isBlank b && b != 0x2F) text = true) :
    Starts text (Utf8.encode (sep ++ (text ++ more)) ++ rest) := by
  rw [← String.append_assoc, Utf8.encode_append, List.append_assoc]
  exact starts_append sep text _ hsep h

theorem Starts.wordBreak {text : String} {input : List UInt8} (h : Starts text input)
    (hbreak : StartsWith (fun b => !isWord b) text = true) : WordBreak input := by
  obtain ⟨sep, rest, hsep, -, rfl⟩ := h
  unfold Blank at hsep
  cases hbytes : Utf8.encode sep with
  | nil => exact wordBreak_append rest hbreak
  | cons b bytes =>
    rw [hbytes, List.all_cons, Bool.and_eq_true] at hsep
    exact wordBreak_of_isBlank hsep.1 _

theorem reads_mark (sep text : String) (hsep : Blank sep)
    (h : StartsWith (fun b => !isBlank b && b != 0x2F) text = true) :
    Reads (mark text) (sep ++ text) Anything (· = ()) :=
  reads_spaced (reads_lit text) hsep fun rest _ => solid_append rest h

/-- A mark is refused where another text stands that differs from it. -/
theorem Starts.refuses_mark {text text' : String} {input : List UInt8} (h : Starts text' input)
    (hne : mismatch (Utf8.encode text) (Utf8.encode text') = true) :
    Refuses (mark text) input := by
  obtain ⟨sep, rest, hsep, hsolid, rfl⟩ := h
  exact refuses_spaced sep hsep hsolid (refuses_lit_of_mismatch hne rest)

theorem Starts.refuses_keyword {text text' : String} {input : List UInt8} (h : Starts text' input)
    (hne : mismatch (Utf8.encode text) (Utf8.encode text') = true) :
    Refuses (keyword text) input :=
  (h.refuses_mark hne).bind

theorem run_wordEnd {rest : List UInt8} (hrest : WordBreak rest) (offset : Nat) :
    wordEnd.run ⟨offset, rest⟩ = some ((), ⟨offset, rest⟩) := by
  have hnone : (satisfy "[a-zA-Z0-9_$.]" isWord).run ⟨offset, rest⟩ = none := by
    cases rest with
    | nil => rfl
    | cons b rest => simp [satisfy, token, hrest b rfl]
  change (if ((satisfy "[a-zA-Z0-9_$.]" isWord).run ⟨offset, rest⟩).isSome then none
    else some ((), (⟨offset, rest⟩ : Cursor))) = _
  rw [hnone]
  rfl

theorem reads_wordEnd : Reads wordEnd "" WordBreak (· = ()) := by
  intro offset rest hrest
  exact ⟨(), offset, rfl, run_wordEnd hrest offset⟩

theorem refuses_wordEnd {b : UInt8} (hb : isWord b = true) (input : List UInt8) :
    Refuses wordEnd (b :: input) := by
  intro offset
  simp [wordEnd, absent, satisfy, token, hb]

theorem reads_keyword (sep text : String) (hsep : Blank sep)
    (h : StartsWith (fun b => !isBlank b && b != 0x2F) text = true) :
    Reads (keyword text) (sep ++ text) WordBreak (· = ()) := by
  refine ((reads_mark sep text hsep h).bind ?_ reads_wordEnd).of_text (String.append_empty ..).symm
  intro rest _
  trivial

/-! ## Digits -/

/-- Bytes that are digits, and at least one. -/
def Digits (ds : List UInt8) : Prop := ds ≠ [] ∧ ∀ d ∈ ds, isDigit d = true

/-- Bytes of a word are taken up to its end. -/
theorem takeWhile_append_of_wordBreak {member : UInt8 → Bool}
    (hmember : ∀ {b}, member b = true → isWord b = true) {ws rest : List UInt8}
    (hws : ∀ b ∈ ws, member b = true) (hrest : WordBreak rest) :
    (ws ++ rest).takeWhile member = ws ∧ (ws ++ rest).dropWhile member = rest := by
  have hstop : rest.takeWhile member = [] ∧ rest.dropWhile member = rest := by
    cases rest with
    | nil => exact ⟨rfl, rfl⟩
    | cons b rest =>
      have hb : ¬ member b = true := by
        intro hb
        have hword := hmember hb
        rw [hrest b rfl] at hword
        cases hword
      exact ⟨List.takeWhile_cons_of_neg hb, List.dropWhile_cons_of_neg hb⟩
  rw [List.takeWhile_append_of_pos hws, List.dropWhile_append_of_pos hws, hstop.1, hstop.2]
  simp

/-- Digits are read where a word ends after them. -/
theorem run_digits {ds rest : List UInt8} (hds : Digits ds) (hrest : WordBreak rest)
    (offset : Nat) : ∃ offset', digits.run ⟨offset, ds ++ rest⟩ = some (ds, ⟨offset', rest⟩) := by
  obtain ⟨hne, hdigits⟩ := hds
  cases ds with
  | nil => exact absurd rfl hne
  | cons d ds =>
    obtain ⟨htake, hdrop⟩ := takeWhile_append_of_wordBreak isWord_of_isDigit
      (fun b hb => hdigits b (List.mem_cons_of_mem d hb)) hrest
    have hfirst : (satisfy "[0-9]" isDigit).run ⟨offset, d :: (ds ++ rest)⟩ =
        some (d, ⟨offset + 1, ds ++ rest⟩) := by
      simp [satisfy, token, hdigits d (by simp)]
    obtain ⟨offset', hmany⟩ := run_many_satisfy "[0-9]" isDigit ⟨offset + 1, ds ++ rest⟩
    rw [htake, hdrop] at hmany
    refine ⟨offset', ?_⟩
    simp only [digits, many1, run_bind, List.cons_append, hfirst, hmany, Option.bind_some,
      run_pure, run_wordEnd hrest]

/-- A word that is not all digits is refused as a number. -/
theorem refuses_digits {ws rest : List UInt8} (hws : ∀ b ∈ ws, isWord b = true)
    (hds : ¬ Digits ws) (hrest : WordBreak rest) : Refuses digits (ws ++ rest) := by
  intro offset
  cases ws with
  | nil =>
    cases rest with
    | nil => rfl
    | cons b rest =>
      have hb : isDigit b = false := by
        by_contra hdigit
        rw [Bool.not_eq_false] at hdigit
        have hword := isWord_of_isDigit hdigit
        rw [hrest b rfl] at hword
        cases hword
      simp [digits, many1, satisfy, token, hb]
  | cons d ws =>
    by_cases hd : isDigit d = true
    · have hfirst : (satisfy "[0-9]" isDigit).run ⟨offset, d :: (ws ++ rest)⟩ =
          some (d, ⟨offset + 1, ws ++ rest⟩) := by
        simp [satisfy, token, hd]
      -- The digits end before the word does, at a byte of the word.
      have hdrop : ∃ b bytes, isWord b = true ∧ (ws ++ rest).dropWhile isDigit = b :: bytes := by
        cases htail : ws.dropWhile isDigit with
        | nil =>
          refine absurd ⟨by simp, ?_⟩ hds
          intro b hb
          rcases List.mem_cons.mp hb with rfl | hb
          · exact hd
          · have hws := List.takeWhile_append_dropWhile (p := isDigit) (l := ws)
            rw [htail, List.append_nil] at hws
            rw [← hws] at hb
            exact List.all_eq_true.mp List.all_takeWhile b hb
        | cons b bytes =>
          have hb : b ∈ ws := (List.dropWhile_sublist isDigit).subset (htail ▸ List.mem_cons_self)
          refine ⟨b, bytes ++ rest, hws b (by simp [hb]), ?_⟩
          rw [List.dropWhile_append, htail]
          rfl
      obtain ⟨b, bytes, hb, hdrop⟩ := hdrop
      obtain ⟨offset', hmany⟩ := run_many_satisfy "[0-9]" isDigit ⟨offset + 1, ws ++ rest⟩
      simp only [digits, many1, run_bind, List.cons_append, hfirst, hmany, Option.bind_some,
        run_pure, hdrop, refuses_wordEnd hb bytes offset', Option.bind_none]
    · simp [digits, many1, satisfy, token, hd]

/-! ## Decimal text -/

/-- An ASCII text has one byte for each of its characters. -/
theorem encode_ofList {cs : List Char} (h : ∀ c ∈ cs, c.toNat < 128) :
    Utf8.encode (String.ofList cs) = cs.map fun c => UInt8.ofNat c.toNat := by
  simp only [Utf8.encode, String.toByteArray_ofList, List.utf8Encode, List.data_toByteArray,
    List.toList_toArray]
  induction cs with
  | nil => rfl
  | cons c cs ih =>
    rw [List.flatMap_cons, Utf8.utf8EncodeChar_one (h c (by simp)), ih fun d hd => h d (by simp [hd])]
    rfl

theorem toNat_of_mem_toDigits {n : Nat} {c : Char} (h : c ∈ Nat.toDigits 10 n) :
    48 ≤ c.toNat ∧ c.toNat ≤ 57 := by
  have hdigit := Nat.isDigit_of_mem_toDigits (by decide) (by decide) h
  simp only [Char.isDigit, Bool.and_eq_true, decide_eq_true_eq] at hdigit
  exact ⟨hdigit.1, hdigit.2⟩

/-- The bytes of the decimal text of a number. -/
theorem encode_toString (n : Nat) :
    Utf8.encode (toString n) = (Nat.toDigits 10 n).map fun c => UInt8.ofNat c.toNat := by
  apply encode_ofList
  intro c hc
  have := toNat_of_mem_toDigits hc
  omega

theorem digits_toString (n : Nat) : Digits (Utf8.encode (toString n)) := by
  rw [encode_toString]
  constructor
  · simp [Nat.toDigits_ne_nil]
  · intro d hd
    obtain ⟨c, hc, rfl⟩ := List.mem_map.mp hd
    have hbounds := toNat_of_mem_toDigits hc
    simp only [isDigit, Bool.and_eq_true, decide_eq_true_eq, UInt8.le_iff_toNat_le,
      UInt8.toNat_ofNat', UInt8.reduceToNat]
    omega

/-- The decimal text of a number stands for it. -/
theorem numeral_toString (n : Nat) : numeral (Utf8.encode (toString n)) = n := by
  have hfold : ∀ (cs : List Char), (∀ c ∈ cs, c.toNat ≤ 57) → ∀ m,
      (cs.map fun c => UInt8.ofNat c.toNat).foldl (fun n d => 10 * n + (d.toNat - 0x30)) m =
        cs.foldl (fun n c => 10 * n + (c.toNat - '0'.toNat)) m := by
    intro cs hcs
    induction cs with
    | nil => exact fun m => rfl
    | cons c cs ih =>
      intro m
      have hc : (UInt8.ofNat c.toNat).toNat = c.toNat := by
        have := hcs c (by simp)
        rw [UInt8.toNat_ofNat']
        omega
      rw [List.map_cons, List.foldl_cons, List.foldl_cons, hc]
      exact ih (fun d hd => hcs d (by simp [hd])) _
  rw [encode_toString, numeral, hfold _ fun c hc => (toNat_of_mem_toDigits hc).2]
  exact Nat.ofDigitChars_toDigits (by decide) (by decide)

/-- Digits are no blanks, and start no comment. -/
theorem solid_digits {ds : List UInt8} (hds : Digits ds) (rest : List UInt8) :
    Solid (ds ++ rest) := by
  obtain ⟨hne, hdigits⟩ := hds
  cases ds with
  | nil => exact absurd rfl hne
  | cons d ds => exact solid_of_isWord (isWord_of_isDigit (hdigits d (by simp))) _

/-! ## Points, registers and numbers -/

theorem run_word32 {ds rest : List UInt8} (hds : Digits ds) (hrest : WordBreak rest)
    (hlt : numeral ds < 4294967296) (offset : Nat) : ∃ offset',
      word32.run ⟨offset, ds ++ rest⟩ = some (UInt32.ofNat (numeral ds), ⟨offset', rest⟩) := by
  obtain ⟨offset', hrun⟩ := run_digits hds hrest offset
  refine ⟨offset', ?_⟩
  simp only [word32, run_bind, hrun, Option.bind_some, if_pos hlt, run_pure]

theorem reads_word32 (n : UInt32) : Reads word32 (toString n.toNat) WordBreak (· = n) := by
  intro offset rest hrest
  have hlt : numeral (Utf8.encode (toString n.toNat)) < 4294967296 := by
    rw [numeral_toString]
    exact n.toNat_lt
  obtain ⟨offset', hrun⟩ := run_word32 (digits_toString n.toNat) hrest hlt offset
  exact ⟨_, offset', by rw [numeral_toString, UInt32.ofNat_toNat], hrun⟩

theorem reads_point (sep : String) (hsep : Blank sep) (pc : Point) :
    Reads point (sep ++ toString pc.toNat) WordBreak (· = pc) :=
  reads_spaced (reads_word32 pc) hsep fun rest _ => solid_digits (digits_toString _) rest

theorem reads_register (sep : String) (hsep : Blank sep) (r : Reg) :
    Reads register (sep ++ r.text) WordBreak (· = r) := by
  have htext : sep ++ r.text = sep ++ "x" ++ toString r.toNat := by
    rw [Reg.text, String.append_assoc]
  rw [htext]
  apply Reads.described
  exact (reads_mark sep "x" hsep rfl).bind (fun _ _ => trivial) (reads_word32 r)

/-- A digit is no minus sign. -/
theorem refuses_minus (n : Nat) (rest : List UInt8) :
    Refuses (lit "-") (Utf8.encode (toString n) ++ rest) := by
  apply refuses_lit
  obtain ⟨hne, hdigits⟩ := digits_toString n
  generalize Utf8.encode (toString n) = ds at hne hdigits
  cases ds with
  | nil => exact absurd rfl hne
  | cons d ds =>
    have hd := hdigits d (by simp)
    apply if_neg
    rintro rfl
    exact absurd hd (by decide)

/-- A number of 64 bits from its sign and its digits. -/
def signed (sign : Option Unit) : Parser Int64 := do
  let n := numeral (← digits)
  let value : Int := if sign.isSome then -n else n
  if -9223372036854775808 ≤ value ∧ value < 9223372036854775808 then return Int64.ofInt value
  else refuse "a number of 64 bits"

theorem number_eq : number = described "Num" "a number"
    (space >>= fun _ => optional (lit "-") >>= signed) := rfl

theorem reads_signed {sign : Option Unit} {k : Nat} {n : Int64}
    (hvalue : (if sign.isSome then -(k : Int) else k) = n.toInt) :
    Reads (signed sign) (toString k) WordBreak (· = n) := by
  intro offset rest hrest
  obtain ⟨offset', hrun⟩ := run_digits (digits_toString k) hrest offset
  refine ⟨n, offset', rfl, ?_⟩
  have hbounds : -9223372036854775808 ≤ n.toInt ∧ n.toInt < 9223372036854775808 :=
    ⟨n.le_toInt, n.toInt_lt⟩
  simp only [signed, run_bind, hrun, Option.bind_some, numeral_toString, hvalue, if_pos hbounds,
    Int64.ofInt_toInt, run_pure]

theorem reads_number (sep : String) (hsep : Blank sep) (n : Int64) :
    Reads number (sep ++ toString n.toInt) WordBreak (· = n) := by
  rw [number_eq]
  apply Reads.described
  cases hn : n.toInt with
  | ofNat k =>
    have hread : Reads (optional (lit "-") >>= signed) ("" ++ toString k) WordBreak (· = n) :=
      reads_optional_none.bind (fun rest _ => refuses_minus k rest) (reads_signed (by simp [hn]))
    rw [String.empty_append] at hread
    exact reads_spaced hread hsep fun rest _ => solid_digits (digits_toString k) rest
  | negSucc k =>
    have hread : Reads (optional (lit "-") >>= signed) ("-" ++ toString (k + 1)) WordBreak
        (· = n) :=
      (reads_lit "-").optional.bind (fun _ _ => trivial)
        (reads_signed (by rw [hn, Int.negSucc_eq]; simp))
    refine reads_spaced hread hsep fun rest _ => ?_
    change Solid (Utf8.encode ("-" ++ toString (k + 1)) ++ rest)
    rw [Utf8.encode_append, List.append_assoc]
    exact solid_append _ rfl

/-! ## Identifiers -/

/-- The bytes of a word that may be a name. -/
structure Word (ws : List UInt8) : Prop where
  ne_nil : ws ≠ []
  start : ∀ b ∈ ws.head?, isWordStart b = true
  isWord : ∀ b ∈ ws, isWord b = true

/-- The bytes of a register: an `x` with a number below 2^32. -/
def RegisterWord (ws : List UInt8) : Prop :=
  ∃ ds, ws = 0x78 :: ds ∧ Digits ds ∧ numeral ds < 4294967296

/-- A name that the format can write: a word that no register is written like. -/
def IsIdentifier (name : String) : Prop :=
  ∃ ws, name = asciiText ws ∧ Word ws ∧ ¬ RegisterWord ws

theorem toNat_of_isWord {b : UInt8} (h : isWord b = true) : b.toNat < 128 := by
  simp only [isWord, isWordStart, isDigit, Bool.or_eq_true, Bool.and_eq_true, decide_eq_true_eq,
    beq_iff_eq, UInt8.le_iff_toNat_le, ← UInt8.toNat_inj, UInt8.reduceToNat] at h
  omega

theorem toNat_charOfNat {n : Nat} (h : n < 128) : (Char.ofNat n).toNat = n :=
  Utf8.toNat_ofNat (.inl (by omega))

theorem encode_asciiText {bs : List UInt8} (h : ∀ b ∈ bs, b.toNat < 128) :
    Utf8.encode (asciiText bs) = bs := by
  rw [asciiText, encode_ofList]
  · rw [List.map_map]
    conv_rhs => rw [← List.map_id bs]
    apply List.map_congr_left
    intro b hb
    simp [toNat_charOfNat (h b hb)]
  · intro c hc
    obtain ⟨b, hb, rfl⟩ := List.mem_map.mp hc
    rw [toNat_charOfNat (h b hb)]
    exact h b hb

theorem Word.encode_asciiText {ws : List UInt8} (h : Word ws) :
    Utf8.encode (asciiText ws) = ws :=
  Grammar.encode_asciiText fun b hb => toNat_of_isWord (h.isWord b hb)

theorem IsIdentifier.ne_empty {name : String} (h : IsIdentifier name) : name ≠ "" := by
  obtain ⟨ws, rfl, hws, -⟩ := h
  intro hempty
  have hencode := hws.encode_asciiText
  rw [hempty] at hencode
  exact hws.ne_nil hencode.symm

/-- A word that no register is written like is refused as a register. -/
theorem refuses_register (sep : String) (hsep : Blank sep) {ws rest : List UInt8} (hne : ws ≠ [])
    (hws : ∀ b ∈ ws, isWord b = true) (hreg : ¬ RegisterWord ws) (hrest : WordBreak rest) :
    Refuses register (Utf8.encode sep ++ (ws ++ rest)) := by
  intro offset
  cases ws with
  | nil => exact absurd rfl hne
  | cons w ws =>
    obtain ⟨offset', hspace⟩ :=
      run_space hsep (solid_of_isWord (hws w (by simp)) (ws ++ rest)) offset
    by_cases hw : w = 0x78
    · subst hw
      have hlit : (lit "x").run ⟨offset', 0x78 :: (ws ++ rest)⟩ =
          some ((), ⟨offset' + 1, ws ++ rest⟩) := rfl
      have hword : word32.run ⟨offset' + 1, ws ++ rest⟩ = none := by
        by_cases hds : Digits ws
        · obtain ⟨offset'', hrun⟩ := run_digits hds hrest (offset' + 1)
          have hbig : ¬ numeral ws < 4294967296 := fun hlt => hreg ⟨ws, rfl, hds, hlt⟩
          simp only [word32, run_bind, hrun, Option.bind_some, if_neg hbig]
          rfl
        · have hnone := refuses_digits (fun b hb => hws b (by simp [hb])) hds hrest (offset' + 1)
          simp only [word32, run_bind, hnone, Option.bind_none]
      simp only [register, mark, run_described, run_bind, List.cons_append, hspace, hlit, hword,
        Option.bind_some]
    · have hlit : (lit "x").run ⟨offset', w :: (ws ++ rest)⟩ = none := by
        apply refuses_lit
        exact if_neg fun heq => hw heq.symm
      simp only [register, mark, run_described, run_bind, List.cons_append, hspace, hlit,
        Option.bind_some, Option.bind_none]

/-- The bytes of a register are read as one. -/
theorem run_registerWord {ws rest : List UInt8} (hws : RegisterWord ws) (hrest : WordBreak rest)
    (offset : Nat) : (register.run ⟨offset, ws ++ rest⟩).isSome = true := by
  obtain ⟨ds, rfl, hds, hlt⟩ := hws
  obtain ⟨_, offset', -, hmark⟩ :=
    reads_mark "" "x" rfl rfl offset (ds ++ rest) trivial
  obtain ⟨offset'', hword⟩ := run_word32 hds hrest hlt offset'
  have hmark : (mark "x").run ⟨offset, 0x78 :: ds ++ rest⟩ = some ((), ⟨offset', ds ++ rest⟩) :=
    hmark
  simp only [register, run_described, run_bind, hmark, hword, Option.bind_some, Option.isSome_some]

theorem wordBreak_dropWhile (input : List UInt8) : WordBreak (input.dropWhile isWord) := by
  intro b hb
  have hhead := List.head?_dropWhile_not isWord input
  rw [Option.mem_def.mp hb] at hhead
  exact hhead

theorem run_satisfy_eq_some {want : String} {member : UInt8 → Bool} {c c' : Cursor} {b : UInt8}
    (h : (satisfy want member).run c = some (b, c')) :
    c.rest = b :: c'.rest ∧ member b = true := by
  obtain ⟨offset, input⟩ := c
  cases input with
  | nil => simp [satisfy, token] at h
  | cons d input =>
    by_cases hd : member d = true
    · simp only [satisfy, token, hd, if_true, Option.map_some, Option.some.injEq,
        Prod.mk.injEq] at h
      obtain ⟨rfl, rfl⟩ := h
      exact ⟨rfl, hd⟩
    · simp [satisfy, token, hd] at h

theorem reads_identifier (sep : String) (hsep : Blank sep) {name : String} (h : IsIdentifier name) :
    Reads identifier (sep ++ name) WordBreak (· = name) := by
  obtain ⟨ws, rfl, hws, hreg⟩ := h
  apply Reads.described
  refine reads_spaced ?_ hsep ?_
  · intro offset rest hrest
    rw [hws.encode_asciiText]
    have hnone : register.run ⟨offset, ws ++ rest⟩ = none :=
      refuses_register "" rfl hws.ne_nil hws.isWord hreg hrest offset
    have habsent : (absent "!Reg" register).run ⟨offset, ws ++ rest⟩ =
        some ((), ⟨offset, ws ++ rest⟩) := by
      simp [absent, hnone]
    cases ws with
    | nil => exact absurd rfl hws.ne_nil
    | cons w ws =>
      obtain ⟨htake, hdrop⟩ := takeWhile_append_of_wordBreak id
        (fun b hb => hws.isWord b (List.mem_cons_of_mem w hb)) hrest
      have hfirst : (satisfy "[a-zA-Z_$.]" isWordStart).run ⟨offset, w :: ws ++ rest⟩ =
          some (w, ⟨offset + 1, ws ++ rest⟩) := by
        simp [satisfy, token, hws.start w rfl]
      obtain ⟨offset', hmany⟩ :=
        run_many_satisfy "[a-zA-Z0-9_$.]" isWord ⟨offset + 1, ws ++ rest⟩
      rw [htake, hdrop] at hmany
      refine ⟨asciiText (w :: ws), offset', rfl, ?_⟩
      simp only [run_bind, habsent, hfirst, hmany, Option.bind_some, run_pure]
  · intro rest _
    rw [hws.encode_asciiText]
    cases ws with
    | nil => exact absurd rfl hws.ne_nil
    | cons w ws => exact solid_of_isWord (hws.isWord w (by simp)) _

/-- What is read as an identifier is one: at the place where its first byte stands, a register was
looked for and not found. -/
theorem yields_identifier : Yields identifier IsIdentifier := by
  intro c name c' hrun
  simp only [identifier, run_described, run_bind, Option.bind_eq_some_iff] at hrun
  obtain ⟨⟨_, c₁⟩, -, ⟨_, c₂⟩, habsent, ⟨w, c₃⟩, hfirst, ⟨ws, c₄⟩, hmany, hname⟩ := hrun
  obtain ⟨offset, hmany'⟩ := run_many_satisfy "[a-zA-Z0-9_$.]" isWord c₃
  rw [hmany', Option.some.injEq, Prod.mk.injEq] at hmany
  obtain ⟨rfl, rfl⟩ := hmany
  obtain ⟨hrest, hw⟩ := run_satisfy_eq_some hfirst
  cases hname
  refine ⟨w :: c₃.rest.takeWhile isWord, rfl, ⟨by simp, ?_, ?_⟩, ?_⟩
  · intro b hb
    cases Option.mem_some.mp hb
    exact hw
  · intro b hb
    rcases List.mem_cons.mp hb with rfl | hb
    · exact isWord_of_isWordStart hw
    · exact List.all_eq_true.mp List.all_takeWhile b hb
  · intro hreg
    have hsome := run_registerWord hreg (wordBreak_dropWhile c₃.rest) c₂.offset
    rw [List.cons_append, List.takeWhile_append_dropWhile, ← hrest] at hsome
    by_cases hc : (register.run c₁).isSome = true
    · simp [absent, hc] at habsent
    · simp only [absent, hc] at habsent
      cases habsent
      exact hc hsome

end Grammar

end RegisterTransfer
