import RegisterTransfer.Proofs.Tokens
set_option autoImplicit false

/-!
# Instructions as text

An instruction is `Expressible` if the format can write it: it holds no number that names nothing,
no argument of type `void`, and its symbols are identifiers.  What is read as an instruction is
expressible (`yields_instr`), and an expressible instruction is read back from its text
(`reads_instr`) wherever a line may end.
-/

namespace RegisterTransfer

open Grammar

/-! ## What the format can write -/

/-- A type that the format can write. -/
def ValueType.Expressible (t : ValueType) : Prop := ∀ n, t ≠ .other n

/-- A signature that the format can write.  Only a result may be `void`. -/
structure Signature.Expressible (s : Signature) : Prop where
  args : ∀ t ∈ s.args, t.Expressible ∧ t ≠ .void
  result : s.result.Expressible

/-- An operation that the format can write. -/
def Operation.Expressible : Operation → Prop
  | .funcAddr symbol => IsIdentifier symbol
  | .other _ => False
  | _ => True

/-- A chunk that the format can write. -/
def Chunk.Expressible (c : Chunk) : Prop := ∀ n, c ≠ .other n

/-- An addressing mode that the format can write. -/
def Addressing.Expressible (a : Addressing) : Prop := ∀ k n, a ≠ .other k n

/-- A condition that the format can write. -/
def Condition.Expressible (c : Condition) : Prop := ∀ n, c.comparison ≠ .other n

/-- A callee that the format can write. -/
def Callee.Expressible : Callee → Prop
  | .symbol name => IsIdentifier name
  | .register _ => True

/-- An instruction that the format can write. -/
def Instr.Expressible : Instr → Prop
  | .nop _ | .ret _ => True
  | .op o _ _ _ => o.Expressible
  | .load c a _ _ _ | .store c a _ _ _ => c.Expressible ∧ a.Expressible
  | .call sig f _ _ _ | .tailcall sig f _ => sig.Expressible ∧ f.Expressible
  | .cond c _ _ _ => c.Expressible

namespace Grammar

open RegisterTransfer.Parser

/-! ## Names -/

section Name

variable {α : Type} {a b : α} {t t' : String} {q : Parser α} {Q : α → Prop}

theorem reads_name (t : String) (a : α) : Reads (name t a) t Anything (· = a) :=
  (reads_lit t).ret

theorem yields_name (h : Q a) : Yields (name t a) Q :=
  Yields.after fun _ => yields_pure h

/-- A name is passed over where another one stands. -/
theorem reads_name_skip (h : mismatch (Utf8.encode t) (Utf8.encode t') = true)
    (hq : Reads q t' Anything Q) : Reads (name t b <|> q) t' Anything Q :=
  hq.orElse_right fun rest _ => (refuses_lit_of_mismatch h rest).bind

/-- A word that is one of several names. -/
theorem reads_word (sep : String) (hsep : Blank sep) (hq : Reads q t Anything (· = a))
    (h : StartsWith (fun b => !isBlank b && b != 0x2F) t = true) :
    Reads (space >>= fun _ => q >>= fun a => wordEnd >>= fun _ => pure a) (sep ++ t) WordBreak
      (· = a) := by
  refine reads_spaced ?_ hsep fun rest _ => solid_append rest h
  refine (hq.bind (fun _ _ => trivial) reads_wordEnd.ret).of_text ?_
  rw [String.append_empty]

end Name

theorem reads_chunk (sep : String) (hsep : Blank sep) {c : Chunk} (h : c.Expressible) :
    Reads chunk (sep ++ c.text) WordBreak (· = c) := by
  apply Reads.described
  cases c with
  | int32 => exact reads_word sep hsep (reads_name _ _).orElse_left rfl
  | int64 => exact reads_word sep hsep (reads_name_skip rfl (reads_name _ _).orElse_left) rfl
  | any64 =>
    exact reads_word sep hsep (reads_name_skip rfl (reads_name_skip rfl (reads_name _ _))) rfl
  | other n => exact absurd rfl (h n)

theorem yields_chunk : Yields chunk Chunk.Expressible := by
  apply Yields.described
  refine Yields.after fun _ => Yields.bind ?_ fun c hc => Yields.after fun _ => yields_pure hc
  refine (yields_name ?_).orElse ((yields_name ?_).orElse (yields_name ?_)) <;>
    exact fun _ => nofun

theorem reads_valueType (sep : String) (hsep : Blank sep) {t : ValueType} (h : t.Expressible)
    (hvoid : t ≠ .void) : Reads valueType (sep ++ t.text) WordBreak (· = t) := by
  apply Reads.described
  cases t with
  | void => exact absurd rfl hvoid
  | int => exact reads_word sep hsep (reads_name _ _).orElse_left rfl
  | long => exact reads_word sep hsep (reads_name_skip rfl (reads_name _ _).orElse_left) rfl
  | float =>
    exact reads_word sep hsep
      (reads_name_skip rfl (reads_name_skip rfl (reads_name _ _).orElse_left)) rfl
  | any =>
    exact reads_word sep hsep
      (reads_name_skip rfl (reads_name_skip rfl (reads_name_skip rfl (reads_name _ _)))) rfl
  | other n => exact absurd rfl (h n)

theorem refuses_valueType {t : String} {input : List UInt8} (h : Starts t input)
    (hne : ∀ n ∈ ["int", "long", "float", "any"],
      mismatch (Utf8.encode n) (Utf8.encode t) = true) : Refuses valueType input := by
  obtain ⟨sep, rest, hsep, hsolid, rfl⟩ := h
  have hname : ∀ n ∈ ["int", "long", "float", "any"], ∀ t' : ValueType,
      Refuses (name n t') (Utf8.encode t ++ rest) :=
    fun n hn t' => (refuses_lit_of_mismatch (hne n hn) rest).bind
  apply Refuses.described
  refine refuses_spaced sep hsep hsolid (Refuses.bind ?_)
  exact (hname "int" (by simp) _).orElse ((hname "long" (by simp) _).orElse
    ((hname "float" (by simp) _).orElse (hname "any" (by simp) _)))

theorem yields_valueType : Yields valueType fun t => t.Expressible ∧ t ≠ .void := by
  apply Yields.described
  refine Yields.after fun _ => Yields.bind ?_ fun t ht => Yields.after fun _ => yields_pure ht
  refine (yields_name ?_).orElse
    ((yields_name ?_).orElse ((yields_name ?_).orElse (yields_name ?_))) <;>
    exact ⟨fun _ => nofun, nofun⟩

theorem reads_resultType (sep : String) (hsep : Blank sep) {t : ValueType} (h : t.Expressible) :
    Reads resultType (sep ++ t.text) WordBreak (· = t) := by
  apply Reads.described
  by_cases hvoid : t = .void
  · subst hvoid
    exact (reads_keyword sep "void" hsep rfl).ret.orElse_left
  · refine (reads_valueType sep hsep h hvoid).orElse_right fun rest _ => Refuses.bind ?_
    cases t with
    | void => exact absurd rfl hvoid
    | int => exact (starts_append sep "int" rest hsep rfl).refuses_keyword rfl
    | long => exact (starts_append sep "long" rest hsep rfl).refuses_keyword rfl
    | float => exact (starts_append sep "float" rest hsep rfl).refuses_keyword rfl
    | any => exact (starts_append sep "any" rest hsep rfl).refuses_keyword rfl
    | other n => exact absurd rfl (h n)

theorem yields_resultType : Yields resultType ValueType.Expressible := by
  apply Yields.described
  refine Yields.orElse (Yields.after fun _ => yields_pure fun _ => nofun) ?_
  intro c t c' hrun
  exact (yields_valueType c t c' hrun).1

/-! ## Constants in brackets -/

theorem reads_bracketed (n : Int64) :
    Reads bracketed ("[" ++ (toString n.toInt ++ "]")) Anything (· = n) := by
  refine ((reads_mark "" "[" rfl rfl).bind (fun _ _ => trivial)
    ((reads_number "" rfl n).bind (fun rest _ => wordBreak_append rest rfl)
      (reads_mark "" "]" rfl rfl).ret)).of_text ?_
  simp only [String.empty_append]

/-! ## Lists -/

section CommaList

variable {α : Type} {p : Parser α} {text : α → String}

/-- The items of a list after its first one, each with the comma before it. -/
def commaText (text : α → String) (as : List α) : String :=
  String.join (as.map fun a => ", " ++ text a)

theorem intercalate_cons (first : String) (rest : List String) :
    ", ".intercalate (first :: rest) = first ++ commaText id rest := by
  induction rest generalizing first with
  | nil => simp [commaText]
  | cons second rest ih =>
    rw [String.intercalate_cons_cons, ih second]
    simp only [commaText, List.map_cons, String.join_cons, id, String.append_assoc]

theorem commaText_id_map (as : List α) : commaText id (as.map text) = commaText text as := by
  simp only [commaText, List.map_map]
  rfl

theorem commaText_append (as bs : List α) :
    commaText text (as ++ bs) = commaText text as ++ commaText text bs := by
  induction as with
  | nil => simp [commaText]
  | cons a as ih =>
    simp only [commaText, List.cons_append, List.map_cons, String.join_cons] at ih ⊢
    rw [ih]
    simp only [String.append_assoc]

theorem wordBreak_commaText (as : List α) {rest : List UInt8} (h : WordBreak rest) :
    WordBreak (Utf8.encode (commaText text as) ++ rest) := by
  cases as with
  | nil => exact h
  | cons a as =>
    simp only [commaText, List.map_cons, String.join_cons, String.append_assoc]
    exact wordBreak_text _ rest rfl

/-- Items with a comma before each are read up to where neither a word goes on nor another item
follows a comma. -/
theorem reads_commaList {as : List α}
    (hitem : ∀ a ∈ as, Reads p (" " ++ text a) WordBreak (· = a)) :
    Reads (many (mark "," >>= fun _ => p)) (commaText text as)
      (fun rest => WordBreak rest ∧ Refuses (mark "," >>= fun _ => p) rest) (· = as) := by
  have hmany : Reads (many (mark "," >>= fun _ => p)) (commaText text as)
      (fun rest => WordBreak rest ∧ Refuses (mark "," >>= fun _ => p) rest)
      (List.Forall₂ (fun a b => b = a) as) := by
    refine Reads.many ?_ ?_ ?_
    · intro a ha
      refine ((reads_mark "" "," rfl rfl).bind (fun _ _ => trivial) (hitem a ha)).of_text ?_
      exact String.toList_inj.mp (by simp)
    · exact fun a _ tail => wordBreak_text _ tail rfl
    · intro a _ hnil
      rw [Utf8.encode_append] at hnil
      exact absurd (List.append_eq_nil_iff.mp hnil).1 (by decide)
  refine hmany.mono (fun _ h => h) fun bs hbs => ?_
  exact (List.forall₂_eq_eq_eq ▸ hbs.imp fun _ _ h => h.symm : as = bs).symm

end CommaList

theorem reads_registers (rs : List Reg) :
    Reads registers ("(" ++ (Reg.listText rs ++ ")")) Anything (· = rs) := by
  apply Reads.rule
  cases rs with
  | nil =>
    exact ((reads_mark "" "(" rfl rfl).bind (fun _ _ => trivial)
      (reads_mark "" ")" rfl rfl).ret).orElse_left
  | cons r rs =>
    have hlist : Reg.listText (r :: rs) = r.text ++ commaText Reg.text rs := by
      rw [Reg.listText, List.map_cons, intercalate_cons, commaText_id_map]
    rw [hlist]
    refine Reads.orElse_right ?_ ?_
    · refine ((reads_mark "" "(" rfl rfl).bind (fun _ _ => trivial)
        ((reads_register "" rfl r).bind ?_
          ((reads_commaList fun a _ => reads_register " " rfl a).bind ?_
            (reads_mark "" ")" rfl rfl).ret))).of_text ?_
      · intro rest _
        rw [Utf8.encode_append, List.append_assoc]
        exact wordBreak_commaText rs (wordBreak_append rest rfl)
      · intro rest _
        have hstarts := starts_append "" ")" rest rfl rfl
        exact ⟨hstarts.wordBreak rfl, (hstarts.refuses_mark rfl).bind⟩
      · simp only [String.empty_append, String.append_assoc]
    · intro rest _
      rw [Utf8.encode_append, List.append_assoc]
      refine (reads_mark "" "(" rfl rfl).refuses_bind trivial fun _ _ => Refuses.bind ?_
      rw [Reg.text]
      simp only [String.append_assoc]
      exact (starts_text "" "x" _ rest rfl rfl).refuses_mark rfl

/-! ## Signatures -/

/-- The dots of a variable number of arguments, after other arguments. -/
def dotsText (varargs : Bool) : String := if varargs then ", ..." else ""

theorem reads_dots (varargs : Bool) :
    Reads (optional (mark "," >>= fun _ => mark "...")) (dotsText varargs) (Starts ")")
      (fun more => more.isSome = varargs) := by
  cases varargs with
  | true =>
    have hdots : Reads (mark "," >>= fun _ => mark "...") ("" ++ "," ++ (" " ++ "..."))
        Anything (· = ()) :=
      (reads_mark "" "," rfl rfl).bind (fun _ _ => trivial) (reads_mark " " "..." rfl rfl)
    exact hdots.optional.mono (fun _ _ => trivial) fun _ h => congrArg Option.isSome h
  | false =>
    exact reads_optional_none.mono (fun _ h => (h.refuses_mark rfl).bind) fun _ h =>
      congrArg Option.isSome h

/-- No further type comes where the dots or the closing parenthesis stand. -/
theorem refuses_comma_dots (varargs : Bool) {rest : List UInt8} (h : Starts ")" rest) :
    WordBreak (Utf8.encode (dotsText varargs) ++ rest) ∧
      Refuses (mark "," >>= fun _ => valueType) (Utf8.encode (dotsText varargs) ++ rest) := by
  cases varargs with
  | false => exact ⟨h.wordBreak rfl, (h.refuses_mark rfl).bind⟩
  | true =>
    refine ⟨wordBreak_append rest rfl, ?_⟩
    have hdots : Utf8.encode (dotsText true) ++ rest =
        Utf8.encode ("" ++ ",") ++ (Utf8.encode (" " ++ "...") ++ rest) := rfl
    rw [hdots]
    refine (reads_mark "" "," rfl rfl).refuses_bind trivial fun _ _ => ?_
    exact refuses_valueType (starts_append " " "..." rest rfl rfl) (by decide)

theorem startsWith_valueType {t : ValueType} (h : t.Expressible) :
    StartsWith (fun b => !isBlank b && b != 0x2F) t.text = true ∧
      mismatch (Utf8.encode "...") (Utf8.encode t.text) = true := by
  cases t with
  | other n => exact absurd rfl (h n)
  | _ => exact ⟨rfl, rfl⟩

theorem reads_arguments {args : List ValueType} {varargs : Bool}
    (hargs : ∀ t ∈ args, t.Expressible ∧ t ≠ .void) (hne : args ≠ [] ∨ varargs = true) :
    Reads arguments
      (", ".intercalate (args.map ValueType.text ++ if varargs then ["..."] else []))
      (Starts ")") (· = (args, varargs)) := by
  apply Reads.rule
  cases args with
  | nil =>
    obtain rfl : varargs = true := by simpa using hne
    exact ((reads_mark "" "..." rfl rfl).mono (fun _ _ => trivial) fun _ h => h).ret.orElse_left
  | cons t ts =>
    obtain ⟨ht, hvoid⟩ := hargs t (by simp)
    have htext : ", ".intercalate ((t :: ts).map ValueType.text ++
        if varargs then ["..."] else []) =
        t.text ++ (commaText ValueType.text ts ++ dotsText varargs) := by
      rw [List.map_cons, List.cons_append, intercalate_cons, commaText_append, commaText_id_map]
      cases varargs <;> rfl
    rw [htext]
    refine Reads.orElse_right ?_ ?_
    · have hlist := reads_commaList fun a ha =>
        reads_valueType " " rfl (hargs a (List.mem_cons_of_mem t ha)).1
          (hargs a (List.mem_cons_of_mem t ha)).2
      refine ((reads_valueType "" rfl ht hvoid).bind ?_
        (hlist.bind (fun rest hrest => refuses_comma_dots varargs hrest)
          ((reads_dots varargs).map fun more h => by rw [h]))).of_text ?_
      · intro rest hrest
        rw [Utf8.encode_append, List.append_assoc]
        exact wordBreak_commaText ts (refuses_comma_dots varargs hrest).1
      · rw [String.empty_append]
    · intro rest _
      obtain ⟨hstart, hne⟩ := startsWith_valueType ht
      exact ((starts_text "" t.text _ rest rfl hstart).refuses_mark hne).bind

theorem yields_arguments :
    Yields arguments fun a => ∀ t ∈ a.1, t.Expressible ∧ t ≠ .void := by
  apply Yields.rule
  refine Yields.orElse (Yields.after fun _ => yields_pure (by simp)) ?_
  refine yields_valueType.bind fun first hfirst => ?_
  refine (Yields.many (Yields.after fun _ => yields_valueType)).bind fun rest hrest => ?_
  refine Yields.after fun more => yields_pure ?_
  intro t ht
  rcases List.mem_cons.mp ht with rfl | ht
  · exact hfirst
  · exact hrest t ht

theorem refuses_arguments {rest : List UInt8} (h : Starts ")" rest) : Refuses arguments rest := by
  apply Refuses.rule
  exact (h.refuses_mark rfl).bind.orElse (refuses_valueType h (by decide)).bind

theorem reads_optional_arguments {args : List ValueType} (varargs : Bool)
    (hargs : ∀ t ∈ args, t.Expressible ∧ t ≠ .void) :
    Reads (optional arguments)
      (", ".intercalate (args.map ValueType.text ++ if varargs then ["..."] else []))
      (Starts ")") (fun a => a.getD ([], false) = (args, varargs)) := by
  by_cases hne : args ≠ [] ∨ varargs = true
  · exact (reads_arguments hargs hne).optional.mono (fun _ h => h) fun _ h =>
      congrArg (·.getD ([], false)) h
  · obtain ⟨rfl, rfl⟩ : args = [] ∧ varargs = false := by simpa using hne
    exact reads_optional_none.mono (fun _ h => refuses_arguments h) fun _ h =>
      congrArg (·.getD ([], false)) h

theorem reads_signature (sep : String) (hsep : Blank sep) {s : Signature} (h : s.Expressible) :
    Reads signature (sep ++ s.text) WordBreak (· = s) := by
  apply Reads.rule
  refine ((reads_keyword sep "sig" hsep rfl).bind (fun rest _ => wordBreak_text _ rest rfl)
    ((reads_mark "" "(" rfl rfl).bind (fun _ _ => trivial)
      ((reads_optional_arguments s.varargs h.args).bindAll
        (fun rest _ => starts_text "" ")" (":" ++ s.result.text) rest rfl rfl) ?_))).of_text ?_
  · intro a ha
    rw [ha]
    refine ((reads_mark "" ")" rfl rfl).bind (fun _ _ => trivial)
      ((reads_mark "" ":" rfl rfl).bind (fun _ _ => trivial)
        (reads_resultType "" rfl h.result).ret)).of_text ?_
    simp only [String.empty_append]
  · rw [Signature.text]
    generalize ", ".intercalate (s.args.map ValueType.text ++
      if s.varargs then ["..."] else []) = args
    exact String.toList_inj.mp (by simp)

theorem yields_signature : Yields signature Signature.Expressible := by
  apply Yields.rule
  refine Yields.after fun _ => Yields.after fun _ => ?_
  refine yields_arguments.optional.bind fun args hargs => ?_
  refine Yields.after fun _ => Yields.after fun _ => ?_
  refine yields_resultType.bind fun result hresult => yields_pure ⟨?_, hresult⟩
  cases args with
  | none => simp
  | some a => exact hargs a rfl

/-! ## Operations, addresses, conditions and callees -/

section Skip

variable {α : Type} {q : Parser α} {f : Unit → Parser α} {k t text : String}
variable {F : List UInt8 → Prop} {Q : α → Prop}

/-- An alternative that starts with a mark is passed over where another text stands. -/
theorem reads_skip_mark (hq : Reads q text F Q)
    (hstarts : ∀ rest, Starts t (Utf8.encode text ++ rest))
    (hne : mismatch (Utf8.encode k) (Utf8.encode t) = true) :
    Reads ((mark k >>= f) <|> q) text F Q :=
  hq.orElse_right fun rest _ => ((hstarts rest).refuses_mark hne).bind

/-- An alternative that starts with a keyword is passed over where another text stands. -/
theorem reads_skip_keyword (hq : Reads q text F Q)
    (hstarts : ∀ rest, Starts t (Utf8.encode text ++ rest))
    (hne : mismatch (Utf8.encode k) (Utf8.encode t) = true) :
    Reads ((keyword k >>= f) <|> q) text F Q :=
  hq.orElse_right fun rest _ => ((hstarts rest).refuses_keyword hne).bind

/-- A rule that starts with a keyword is passed over where another text stands. -/
theorem reads_skip_rule {name : String} (hq : Reads q text F Q)
    (hstarts : ∀ rest, Starts t (Utf8.encode text ++ rest))
    (hne : mismatch (Utf8.encode k) (Utf8.encode t) = true) :
    Reads (rule name (keyword k >>= f) <|> q) text F Q :=
  hq.orElse_right fun rest _ => ((hstarts rest).refuses_keyword hne).bind.rule name

end Skip

/-- A mark with a constant in brackets after it, as it stands in operations and addresses. -/
theorem reads_bracketed_mark {α : Type} {g : Int64 → α} (sep : String) (hsep : Blank sep)
    (t : String) (h : StartsWith (fun b => !isBlank b && b != 0x2F) t = true) (n : Int64) :
    Reads (mark t >>= fun _ => bracketed >>= fun n => pure (g n))
      (sep ++ (t ++ ("[" ++ (toString n.toInt ++ "]")))) Anything (· = g n) := by
  refine ((reads_mark sep t hsep h).bind (fun _ _ => trivial) (reads_bracketed n).ret).of_text ?_
  rw [String.append_assoc]

theorem reads_addressing (sep : String) (hsep : Blank sep) {a : Addressing}
    (h : a.Expressible) : Reads addressing (sep ++ a.text) Anything (· = a) := by
  apply Reads.described
  cases a with
  | indexed n =>
    refine (reads_bracketed_mark sep hsep "indexed" rfl n).orElse_left.of_text ?_
    exact String.toList_inj.mp (by simp [Addressing.text])
  | stack n =>
    refine (reads_skip_mark (reads_bracketed_mark sep hsep "stack" rfl n)
      (fun rest => starts_text sep "stack" _ rest hsep rfl) rfl).of_text ?_
    exact String.toList_inj.mp (by simp [Addressing.text])
  | other k n => exact absurd rfl (h k n)

theorem yields_addressing : Yields addressing Addressing.Expressible := by
  apply Yields.described
  refine Yields.orElse ?_ ?_ <;>
    exact Yields.after fun _ => Yields.after fun _ => yields_pure fun _ _ => nofun

theorem reads_callee (sep : String) (hsep : Blank sep) {f : Callee} (h : f.Expressible) :
    Reads callee (sep ++ f.text) WordBreak (· = f) := by
  apply Reads.rule
  cases f with
  | register r => exact (reads_register sep hsep r).ret.orElse_left
  | symbol name =>
    refine (reads_identifier sep hsep h).ret.orElse_right fun rest hrest => Refuses.bind ?_
    obtain ⟨ws, rfl, hws, hreg⟩ := h
    rw [Utf8.encode_append, List.append_assoc, hws.encode_asciiText]
    exact refuses_register sep hsep hws.ne_nil hws.isWord hreg hrest

theorem yields_callee : Yields callee Callee.Expressible := by
  apply Yields.rule
  refine Yields.orElse (Yields.after fun _ => yields_pure trivial) ?_
  exact yields_identifier.bind fun name hname => yields_pure hname

/-- The comparison of a condition. -/
def comparison : Parser Comparison :=
  name "eq" .eq <|> name "ne" .ne <|> name "lt" .lt <|> name "le" .le <|> name "gt" .gt
    <|> name "ge" .ge

theorem condition_eq : condition = described "Cond" "a comparison"
    (space >>= fun _ => comparison >>= fun c => wordEnd >>= fun _ =>
      optional bracketed >>= fun imm => pure ⟨c, imm⟩) := rfl

theorem reads_comparison {c : Comparison} (h : ∀ n, c ≠ .other n) :
    Reads comparison c.text Anything (· = c) := by
  cases c with
  | eq => exact (reads_name _ _).orElse_left
  | ne => exact reads_name_skip rfl (reads_name _ _).orElse_left
  | lt => exact reads_name_skip rfl (reads_name_skip rfl (reads_name _ _).orElse_left)
  | le =>
    exact reads_name_skip rfl (reads_name_skip rfl (reads_name_skip rfl
      (reads_name _ _).orElse_left))
  | gt =>
    exact reads_name_skip rfl (reads_name_skip rfl (reads_name_skip rfl (reads_name_skip rfl
      (reads_name _ _).orElse_left)))
  | ge =>
    exact reads_name_skip rfl (reads_name_skip rfl (reads_name_skip rfl (reads_name_skip rfl
      (reads_name_skip rfl (reads_name _ _)))))
  | other n => exact absurd rfl (h n)

/-- The constant of a condition. -/
def immText : Option Int64 → String
  | none => ""
  | some n => "[" ++ (toString n.toInt ++ "]")

theorem reads_imm (imm : Option Int64) :
    Reads (optional bracketed) (immText imm) (Starts "(") (· = imm) := by
  cases imm with
  | none => exact reads_optional_none.mono (fun _ h => (h.refuses_mark rfl).bind) fun _ h => h
  | some n => exact (reads_bracketed n).optional.mono (fun _ _ => trivial) fun _ h => h

theorem reads_condition (sep : String) (hsep : Blank sep) {c : Condition} (h : c.Expressible) :
    Reads condition (sep ++ c.text) (Starts "(") (· = c) := by
  rw [condition_eq]
  apply Reads.described
  have htext : c.text = c.comparison.text ++ immText c.imm := by
    obtain ⟨comparison, imm⟩ := c
    cases imm with
    | none => exact (String.append_empty ..).symm
    | some n => exact String.toList_inj.mp (by simp [Condition.text, immText])
  have hsolid : StartsWith (fun b => !isBlank b && b != 0x2F) c.comparison.text = true := by
    cases hc : c.comparison with
    | other n => exact absurd hc (h n)
    | _ => rfl
  rw [htext]
  refine reads_spaced ?_ hsep fun rest _ => ?_
  · refine ((reads_comparison h).bind (fun _ _ => trivial) (reads_wordEnd.bind ?_
      (reads_imm c.imm).ret)).of_text ?_
    · intro rest hrest
      cases c.imm with
      | none => exact hrest.wordBreak rfl
      | some n => exact wordBreak_text _ rest rfl
    · rw [String.empty_append]
  · rw [Utf8.encode_append, List.append_assoc]
    exact solid_append _ hsolid

theorem yields_comparison : Yields comparison fun c => ∀ n, c ≠ .other n := by
  refine (yields_name ?_).orElse ((yields_name ?_).orElse ((yields_name ?_).orElse
    ((yields_name ?_).orElse ((yields_name ?_).orElse (yields_name ?_))))) <;>
    exact fun _ => nofun

theorem yields_condition : Yields condition Condition.Expressible := by
  rw [condition_eq]
  apply Yields.described
  exact Yields.after fun _ => yields_comparison.bind fun c hc =>
    Yields.after fun _ => Yields.after fun imm => yields_pure hc

theorem reads_funcAddr (sep : String) (hsep : Blank sep) {symbol : String}
    (h : IsIdentifier symbol) :
    Reads (mark "funcaddr" >>= fun _ => mark "[" >>= fun _ => identifier >>= fun symbol =>
        mark "]" >>= fun _ => pure (Operation.funcAddr symbol))
      (sep ++ ("funcaddr" ++ ("[" ++ (symbol ++ "]")))) Anything (· = .funcAddr symbol) := by
  refine ((reads_mark sep "funcaddr" hsep rfl).bind (fun _ _ => trivial)
    ((reads_mark "" "[" rfl rfl).bind (fun _ _ => trivial)
      ((reads_identifier "" rfl h).bind (fun rest _ => wordBreak_append rest rfl)
        (reads_mark "" "]" rfl rfl).ret))).of_text ?_
  simp only [String.empty_append, String.append_assoc]

/-- An operation is read back in front of its arguments.  Without them, the text of `add` would
also start that of `add[4]`. -/
theorem reads_operation (sep : String) (hsep : Blank sep) {o : Operation} (h : o.Expressible) :
    Reads operation (sep ++ o.text) (Starts "(") (· = o) := by
  apply Reads.described
  -- A keyword ends at the parenthesis, and a constant in brackets may be followed by anything.
  have hkey : ∀ (t : String) (o : Operation),
      StartsWith (fun b => !isBlank b && b != 0x2F) t = true →
      Reads (keyword t >>= fun _ => pure o) (sep ++ t) (Starts "(") (· = o) := fun t o ht =>
    (reads_keyword sep t hsep ht).ret.mono (fun _ h => h.wordBreak rfl) fun _ h => h
  have hnum : ∀ (t : String) (g : Int64 → Operation) (n : Int64),
      StartsWith (fun b => !isBlank b && b != 0x2F) t = true →
      Reads (mark t >>= fun _ => bracketed >>= fun n => pure (g n))
        (sep ++ (t ++ ("[" ++ (toString n.toInt ++ "]")))) (Starts "(") (· = g n) :=
    fun t g n ht => (reads_bracketed_mark sep hsep t ht n).mono (fun _ _ => trivial) fun _ h => h
  cases o with
  | move => exact (hkey "move" _ rfl).orElse_left
  | addImm n =>
    refine (reads_skip_keyword (hnum "add" _ n rfl).orElse_left
      (fun rest => starts_text sep "add" _ rest hsep rfl) rfl).of_text ?_
    exact String.toList_inj.mp (by simp [Operation.text])
  | add =>
    refine reads_skip_keyword (Reads.orElse_right (hkey "add" _ rfl).orElse_left ?_)
      (fun rest => starts_append sep "add" rest hsep rfl) rfl
    intro rest hrest
    exact (reads_mark sep "add" hsep rfl).refuses_bind trivial fun _ _ =>
      (hrest.refuses_mark rfl).bind.bind
  | sub =>
    have hs := fun rest => starts_append sep "sub" rest hsep rfl
    refine reads_skip_keyword ?_ hs rfl
    refine reads_skip_mark ?_ hs rfl
    refine reads_skip_keyword ?_ hs rfl
    exact (hkey "sub" _ rfl).orElse_left
  | mul =>
    have hs := fun rest => starts_append sep "mul" rest hsep rfl
    refine reads_skip_keyword ?_ hs rfl
    refine reads_skip_mark ?_ hs rfl
    refine reads_skip_keyword ?_ hs rfl
    refine reads_skip_keyword ?_ hs rfl
    exact (hkey "mul" _ rfl).orElse_left
  | intConst n =>
    have hs := fun rest => starts_text sep "int" ("[" ++ (toString n.toInt ++ "]")) rest hsep rfl
    refine (reads_skip_keyword ?_ hs rfl).of_text ?_
    · refine reads_skip_mark ?_ hs rfl
      refine reads_skip_keyword ?_ hs rfl
      refine reads_skip_keyword ?_ hs rfl
      refine reads_skip_keyword ?_ hs rfl
      exact (hnum "int" _ n rfl).orElse_left
    · exact String.toList_inj.mp (by simp [Operation.text])
  | longConst n =>
    have hs := fun rest => starts_text sep "long" ("[" ++ (toString n.toInt ++ "]")) rest hsep rfl
    refine (reads_skip_keyword ?_ hs rfl).of_text ?_
    · refine reads_skip_mark ?_ hs rfl
      refine reads_skip_keyword ?_ hs rfl
      refine reads_skip_keyword ?_ hs rfl
      refine reads_skip_keyword ?_ hs rfl
      refine reads_skip_mark ?_ hs rfl
      exact (hnum "long" _ n rfl).orElse_left
    · exact String.toList_inj.mp (by simp [Operation.text])
  | funcAddr symbol =>
    have hs := fun rest => starts_text sep "funcaddr" ("[" ++ (symbol ++ "]")) rest hsep rfl
    refine (reads_skip_keyword ?_ hs rfl).of_text ?_
    · refine reads_skip_mark ?_ hs rfl
      refine reads_skip_keyword ?_ hs rfl
      refine reads_skip_keyword ?_ hs rfl
      refine reads_skip_keyword ?_ hs rfl
      refine reads_skip_mark ?_ hs rfl
      refine reads_skip_mark ?_ hs rfl
      exact (reads_funcAddr sep hsep h).mono (fun _ _ => trivial) fun _ h => h
    · exact String.toList_inj.mp (by simp [Operation.text])
  | other n => exact h.elim

theorem yields_operation : Yields operation Operation.Expressible := by
  apply Yields.described
  have hkey : ∀ (t : String) (o : Operation), o.Expressible →
      Yields (keyword t >>= fun _ => pure o) Operation.Expressible :=
    fun t o ho => Yields.after fun _ => yields_pure ho
  have hnum : ∀ (t : String) (g : Int64 → Operation), (∀ n, (g n).Expressible) →
      Yields (mark t >>= fun _ => bracketed >>= fun n => pure (g n)) Operation.Expressible :=
    fun t g hg => Yields.after fun _ => Yields.after fun n => yields_pure (hg n)
  refine (hkey "move" .move trivial).orElse ((hnum "add" .addImm fun _ => trivial).orElse
    ((hkey "add" .add trivial).orElse ((hkey "sub" .sub trivial).orElse
      ((hkey "mul" .mul trivial).orElse ((hnum "int" .intConst fun _ => trivial).orElse
        ((hnum "long" .longConst fun _ => trivial).orElse ?_))))))
  exact Yields.after fun _ => Yields.after fun _ => yields_identifier.bind fun symbol hsymbol =>
    Yields.after fun _ => yields_pure hsymbol

/-! ## Instructions -/

theorem reads_successor (sep : String) (hsep : Blank sep) (pc : Point) :
    Reads successor (sep ++ ("->" ++ (" " ++ toString pc.toNat))) WordBreak (· = pc) := by
  apply Reads.rule
  refine ((reads_mark sep "->" hsep rfl).bind (fun _ _ => trivial)
    (reads_point " " rfl pc)).of_text ?_
  rw [String.append_assoc]

/-- An input at which a line may end: no word goes on, and no register follows. -/
def LineEnd (input : List UInt8) : Prop := WordBreak input ∧ Refuses register input

/-- The end of a word is seen from the first part of what follows, also in a longer text. -/
theorem wordBreak_text_text {text : String} (more more' : String) (rest : List UInt8)
    (h : StartsWith (fun b => !isWord b) text = true) :
    WordBreak (Utf8.encode (text ++ more ++ more') ++ rest) := by
  rw [String.append_assoc]
  exact wordBreak_text _ rest h

theorem starts_registers (rs : List Reg) (more : String) (rest : List UInt8) :
    Starts "(" (Utf8.encode ("(" ++ (Reg.listText rs ++ ")") ++ more) ++ rest) := by
  rw [String.append_assoc]
  exact starts_text "" "(" _ rest rfl rfl

section Instructions

variable (sep : String) (hsep : Blank sep)

include hsep

theorem reads_nop (s : Point) : Reads nop (sep ++ (Instr.nop s).text) WordBreak (· = .nop s) := by
  apply Reads.rule
  refine ((reads_keyword sep "nop" hsep rfl).bind (fun rest _ => wordBreak_text _ rest rfl)
    (reads_successor " " rfl s).ret).of_text ?_
  exact String.toList_inj.mp (by simp [Instr.text])

theorem reads_ret (value : Option Reg) :
    Reads ret (sep ++ (Instr.ret value).text) LineEnd (· = .ret value) := by
  apply Reads.rule
  cases value with
  | none =>
    have hnone : Reads (optional register) "" LineEnd (· = none) :=
      reads_optional_none.mono (fun _ h => h.2) fun _ h => h
    refine ((reads_keyword sep "return" hsep rfl).bind ?_ hnone.ret).of_text ?_
    · exact fun _ h => h.1
    · exact (String.append_empty ..).symm
  | some r =>
    refine ((reads_keyword sep "return" hsep rfl).bind (fun rest _ => wordBreak_text _ rest rfl)
      ((reads_register " " rfl r).optional.mono (fun _ h => h.1) fun _ h => h).ret).of_text ?_
    exact String.toList_inj.mp (by simp [Instr.text])

theorem reads_store {c : Chunk} {a : Addressing} (hc : c.Expressible) (ha : a.Expressible)
    (args : List Reg) (src : Reg) (s : Point) :
    Reads store (sep ++ (Instr.store c a args src s).text) WordBreak
      (· = .store c a args src s) := by
  apply Reads.rule
  refine ((reads_keyword sep "store" hsep rfl).bind (fun rest _ => wordBreak_text_text _ _ rest rfl)
    ((reads_chunk " " rfl hc).bind (fun rest _ => wordBreak_text_text _ _ rest rfl)
      ((reads_addressing " " rfl ha).bind (fun _ _ => trivial)
        ((reads_registers args).bind (fun _ _ => trivial)
          ((reads_mark "" "," rfl rfl).bind (fun _ _ => trivial)
            ((reads_register " " rfl src).bind (fun rest _ => wordBreak_text _ rest rfl)
              (reads_successor " " rfl s).ret)))))).of_text ?_
  exact String.toList_inj.mp (by simp [Instr.text])

theorem reads_tailcall {sig : Signature} {f : Callee} (hsig : sig.Expressible)
    (hf : f.Expressible) (args : List Reg) :
    Reads tailcall (sep ++ (Instr.tailcall sig f args).text) WordBreak
      (· = .tailcall sig f args) := by
  apply Reads.rule
  refine ((reads_keyword sep "tailcall" hsep rfl).bind
    (fun rest _ => wordBreak_text_text _ _ rest rfl)
    ((reads_callee " " rfl hf).bind (fun rest _ => wordBreak_text_text _ _ rest rfl)
      ((reads_registers args).bind (fun _ _ => trivial)
        (reads_signature " " rfl hsig).ret))).of_text ?_
  exact String.toList_inj.mp (by simp [Instr.text])

theorem reads_branch {c : Condition} (hc : c.Expressible) (args : List Reg) (t f : Point) :
    Reads branch (sep ++ (Instr.cond c args t f).text) WordBreak (· = .cond c args t f) := by
  apply Reads.rule
  refine ((reads_keyword sep "if" hsep rfl).bind (fun rest _ => wordBreak_text_text _ _ rest rfl)
    ((reads_condition " " rfl hc).bind (fun rest _ => starts_registers args _ rest)
      ((reads_registers args).bind (fun _ _ => trivial)
        ((reads_successor " " rfl t).bind (fun rest _ => wordBreak_text _ rest rfl)
          ((reads_mark "" "," rfl rfl).bind (fun _ _ => trivial)
            (reads_point " " rfl f).ret))))).of_text ?_
  exact String.toList_inj.mp (by simp [Instr.text])

theorem reads_load {c : Chunk} {a : Addressing} (hc : c.Expressible) (ha : a.Expressible)
    (args : List Reg) (dest : Reg) (s : Point) :
    Reads (load dest) (sep ++ ("load" ++ (" " ++ c.text ++ (" " ++ a.text ++
      ("(" ++ (Reg.listText args ++ ")") ++ (" " ++ ("->" ++ (" " ++ toString s.toNat))))))))
      WordBreak (· = .load c a args dest s) := by
  apply Reads.rule
  refine ((reads_keyword sep "load" hsep rfl).bind (fun rest _ => wordBreak_text_text _ _ rest rfl)
    ((reads_chunk " " rfl hc).bind (fun rest _ => wordBreak_text_text _ _ rest rfl)
      ((reads_addressing " " rfl ha).bind (fun _ _ => trivial)
        ((reads_registers args).bind (fun _ _ => trivial)
          (reads_successor " " rfl s).ret)))).of_text ?_
  simp only [String.append_assoc]

theorem reads_call {sig : Signature} {f : Callee} (hsig : sig.Expressible) (hf : f.Expressible)
    (args : List Reg) (dest : Reg) (s : Point) :
    Reads (call dest) (sep ++ ("call" ++ (" " ++ f.text ++
      ("(" ++ (Reg.listText args ++ ")") ++ (" " ++ sig.text ++
        (" " ++ ("->" ++ (" " ++ toString s.toNat)))))))) WordBreak
      (· = .call sig f args dest s) := by
  apply Reads.rule
  refine ((reads_keyword sep "call" hsep rfl).bind (fun rest _ => wordBreak_text_text _ _ rest rfl)
    ((reads_callee " " rfl hf).bind (fun rest _ => wordBreak_text_text _ _ rest rfl)
      ((reads_registers args).bind (fun _ _ => trivial)
        ((reads_signature " " rfl hsig).bind (fun rest _ => wordBreak_text _ rest rfl)
          (reads_successor " " rfl s).ret)))).of_text ?_
  simp only [String.append_assoc]

theorem reads_compute {o : Operation} (ho : o.Expressible) (args : List Reg) (dest : Reg)
    (s : Point) :
    Reads (compute dest) (sep ++ o.text ++ ("(" ++ (Reg.listText args ++ ")") ++
      (" " ++ ("->" ++ (" " ++ toString s.toNat))))) WordBreak (· = .op o args dest s) := by
  apply Reads.rule
  exact (reads_operation sep hsep ho).bind (fun rest _ => starts_registers args _ rest)
    ((reads_registers args).bind (fun _ _ => trivial) (reads_successor " " rfl s).ret)

/-- The word that an operation starts with is neither `load` nor `call`. -/
theorem starts_operation {o : Operation} (ho : o.Expressible) (more : String)
    (rest : List UInt8) : ∃ t, Starts t (Utf8.encode (sep ++ o.text ++ more) ++ rest) ∧
      mismatch (Utf8.encode "load") (Utf8.encode t) = true ∧
      mismatch (Utf8.encode "call") (Utf8.encode t) = true := by
  rw [String.append_assoc]
  cases o with
  | move => exact ⟨_, starts_text sep "move" _ rest hsep rfl, rfl, rfl⟩
  | add => exact ⟨_, starts_text sep "add" _ rest hsep rfl, rfl, rfl⟩
  | sub => exact ⟨_, starts_text sep "sub" _ rest hsep rfl, rfl, rfl⟩
  | mul => exact ⟨_, starts_text sep "mul" _ rest hsep rfl, rfl, rfl⟩
  | intConst n =>
    simp only [Operation.text, String.append_assoc]
    exact ⟨_, starts_text sep "int[" _ rest hsep rfl, rfl, rfl⟩
  | longConst n =>
    simp only [Operation.text, String.append_assoc]
    exact ⟨_, starts_text sep "long[" _ rest hsep rfl, rfl, rfl⟩
  | addImm n =>
    simp only [Operation.text, String.append_assoc]
    exact ⟨_, starts_text sep "add[" _ rest hsep rfl, rfl, rfl⟩
  | funcAddr symbol =>
    simp only [Operation.text, String.append_assoc]
    exact ⟨_, starts_text sep "funcaddr[" _ rest hsep rfl, rfl, rfl⟩
  | other n => exact ho.elim

/-- An instruction that gives a value to a register is read back from the text after its equals
sign. -/
theorem reads_assign {i : Instr} {dest : Reg} {text : String}
    (h : Reads (load dest <|> call dest <|> compute dest) (" " ++ text) WordBreak (· = i)) :
    Reads assign (sep ++ (dest.text ++ (" = " ++ text))) WordBreak (· = i) := by
  apply Reads.rule
  refine ((reads_register sep hsep dest).bind (fun rest _ => wordBreak_text_text _ _ rest rfl)
    ((reads_mark " " "=" rfl rfl).bind (fun _ _ => trivial) h)).of_text ?_
  exact String.toList_inj.mp (by simp)

/-- The alternatives before the last one refuse a line that starts with a register. -/
theorem reads_instr_of_assign {i : Instr} {dest : Reg} {text : String}
    (h : Reads assign (sep ++ (dest.text ++ text)) WordBreak (· = i)) :
    Reads instr (sep ++ (dest.text ++ text)) LineEnd (· = i) := by
  have hs : ∀ rest, Starts "x" (Utf8.encode (sep ++ (dest.text ++ text)) ++ rest) := by
    intro rest
    rw [Reg.text, String.append_assoc]
    exact starts_text sep "x" _ rest hsep rfl
  have hassign := h.mono (G := LineEnd) (fun _ h => h.1) fun _ h => h
  apply Reads.rule
  refine reads_skip_rule ?_ hs rfl
  refine reads_skip_rule ?_ hs rfl
  refine reads_skip_rule ?_ hs rfl
  refine reads_skip_rule ?_ hs rfl
  exact reads_skip_rule hassign hs rfl

/-- An expressible instruction is read back from its text where a line may end. -/
theorem reads_instr {i : Instr} (h : i.Expressible) :
    Reads instr (sep ++ i.text) LineEnd (· = i) := by
  cases i with
  | nop s =>
    apply Reads.rule
    exact ((reads_nop sep hsep s).mono (fun _ h => h.1) fun _ h => h).orElse_left
  | ret value =>
    have hs : ∀ rest, Starts "return" (Utf8.encode (sep ++ (Instr.ret value).text) ++ rest) := by
      intro rest
      cases value with
      | none => exact starts_append sep "return" rest hsep rfl
      | some r =>
        have htext : (Instr.ret (some r)).text = "return" ++ (" " ++ r.text) :=
          String.toList_inj.mp (by simp [Instr.text])
        rw [htext]
        exact starts_text sep "return" _ rest hsep rfl
    apply Reads.rule
    exact reads_skip_rule (reads_ret sep hsep value).orElse_left hs rfl
  | store c a args src s =>
    have hs : ∀ rest,
        Starts "store " (Utf8.encode (sep ++ (Instr.store c a args src s).text) ++ rest) := by
      intro rest
      simp only [Instr.text, String.append_assoc]
      exact starts_text sep "store " _ rest hsep rfl
    have hstore := (reads_store sep hsep h.1 h.2 args src s).mono (G := LineEnd)
      (fun _ h => h.1) fun _ h => h
    apply Reads.rule
    refine reads_skip_rule ?_ hs rfl
    exact reads_skip_rule hstore.orElse_left hs rfl
  | tailcall sig f args =>
    have hs : ∀ rest,
        Starts "tailcall " (Utf8.encode (sep ++ (Instr.tailcall sig f args).text) ++ rest) := by
      intro rest
      simp only [Instr.text, String.append_assoc]
      exact starts_text sep "tailcall " _ rest hsep rfl
    have htail := (reads_tailcall sep hsep h.1 h.2 args).mono (G := LineEnd)
      (fun _ h => h.1) fun _ h => h
    apply Reads.rule
    refine reads_skip_rule ?_ hs rfl
    refine reads_skip_rule ?_ hs rfl
    exact reads_skip_rule htail.orElse_left hs rfl
  | cond c args t f =>
    have hs : ∀ rest,
        Starts "if " (Utf8.encode (sep ++ (Instr.cond c args t f).text) ++ rest) := by
      intro rest
      simp only [Instr.text, String.append_assoc]
      exact starts_text sep "if " _ rest hsep rfl
    have hbranch := (reads_branch sep hsep h args t f).mono (G := LineEnd)
      (fun _ h => h.1) fun _ h => h
    apply Reads.rule
    refine reads_skip_rule ?_ hs rfl
    refine reads_skip_rule ?_ hs rfl
    refine reads_skip_rule ?_ hs rfl
    exact reads_skip_rule hbranch.orElse_left hs rfl
  | load c a args dest s =>
    have hload := (reads_load " " rfl h.1 h.2 args dest s).orElse_left
      (q := call dest <|> compute dest)
    refine (reads_instr_of_assign sep hsep (reads_assign sep hsep hload)).of_text ?_
    exact String.toList_inj.mp (by simp [Instr.text])
  | call sig f args dest s =>
    have hcall : Reads (load dest <|> call dest <|> compute dest) _ WordBreak _ :=
      reads_skip_rule (reads_call " " rfl h.1 h.2 args dest s).orElse_left
        (fun rest => starts_text " " "call" _ rest rfl rfl) rfl
    refine (reads_instr_of_assign sep hsep (reads_assign sep hsep hcall)).of_text ?_
    exact String.toList_inj.mp (by simp [Instr.text])
  | op o args dest s =>
    have hop : Reads (load dest <|> call dest <|> compute dest)
        (" " ++ (o.text ++ ("(" ++ (Reg.listText args ++ ")") ++
          (" " ++ ("->" ++ (" " ++ toString s.toNat)))))) WordBreak (· = .op o args dest s) := by
      rw [← String.append_assoc]
      refine ((reads_compute " " rfl h args dest s).orElse_right ?_).orElse_right ?_
      · intro rest _
        obtain ⟨t, hstarts, -, hne⟩ := starts_operation " " rfl h _ rest
        exact (hstarts.refuses_keyword hne).bind.rule _
      · intro rest _
        obtain ⟨t, hstarts, hne, -⟩ := starts_operation " " rfl h _ rest
        exact (hstarts.refuses_keyword hne).bind.rule _
    refine (reads_instr_of_assign sep hsep (reads_assign sep hsep hop)).of_text ?_
    exact String.toList_inj.mp (by simp [Instr.text])

end Instructions

/-- What is read as an instruction is expressible. -/
theorem yields_instr : Yields instr Instr.Expressible := by
  have hnop : Yields nop Instr.Expressible :=
    (Yields.after fun _ => Yields.after fun _ => yields_pure trivial : Yields _ _).rule "Nop"
  have hret : Yields ret Instr.Expressible :=
    (Yields.after fun _ => Yields.after fun _ => yields_pure trivial : Yields _ _).rule "Return"
  have hstore : Yields store Instr.Expressible := by
    apply Yields.rule
    refine Yields.after fun _ => yields_chunk.bind fun c hc => yields_addressing.bind fun a ha => ?_
    exact Yields.after fun _ => Yields.after fun _ => Yields.after fun _ => Yields.after fun _ =>
      yields_pure ⟨hc, ha⟩
  have htail : Yields tailcall Instr.Expressible := by
    apply Yields.rule
    refine Yields.after fun _ => yields_callee.bind fun f hf => Yields.after fun _ => ?_
    exact yields_signature.bind fun sig hsig => yields_pure ⟨hsig, hf⟩
  have hbranch : Yields branch Instr.Expressible := by
    apply Yields.rule
    refine Yields.after fun _ => yields_condition.bind fun c hc => ?_
    exact Yields.after fun _ => Yields.after fun _ => Yields.after fun _ => Yields.after fun _ =>
      yields_pure hc
  have hload : ∀ dest, Yields (load dest) Instr.Expressible := by
    intro dest
    apply Yields.rule
    refine Yields.after fun _ => yields_chunk.bind fun c hc => yields_addressing.bind fun a ha => ?_
    exact Yields.after fun _ => Yields.after fun _ => yields_pure ⟨hc, ha⟩
  have hcall : ∀ dest, Yields (call dest) Instr.Expressible := by
    intro dest
    apply Yields.rule
    refine Yields.after fun _ => yields_callee.bind fun f hf => Yields.after fun _ => ?_
    exact yields_signature.bind fun sig hsig => Yields.after fun _ => yields_pure ⟨hsig, hf⟩
  have hcompute : ∀ dest, Yields (compute dest) Instr.Expressible := by
    intro dest
    apply Yields.rule
    exact yields_operation.bind fun o ho => Yields.after fun _ => Yields.after fun _ =>
      yields_pure ho
  have hassign : Yields assign Instr.Expressible := by
    apply Yields.rule
    exact Yields.after fun dest => Yields.after fun _ =>
      (hload dest).orElse ((hcall dest).orElse (hcompute dest))
  apply Yields.rule
  exact hnop.orElse (hret.orElse (hstore.orElse (htail.orElse (hbranch.orElse hassign))))

end Grammar

end RegisterTransfer
