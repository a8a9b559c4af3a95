import RegisterTransfer.Parser.Failure
set_option autoImplicit false

/-!
# Parsers

A parser reads a value off the front of a text and chooses between alternatives in order, without
going back on a choice that was made.  Beside the reading itself (`run`) it accounts for failure:
`reach` is the greatest offset at which a token was refused on the way, also where another
alternative went on to succeed, and `failures` is what was wanted at or past a given offset.  The
account of a text that was refused is taken at the offset that `reach` gives.
-/

namespace RegisterTransfer

/-- A place in a text: the number of bytes before it, and the bytes after it. -/
structure Cursor where
  offset : Nat
  rest : List UInt8
  deriving DecidableEq, Repr, Inhabited

/-- A parser of values of type `α`. -/
structure Parser (α : Type) where
  /-- The value and the place after it, if the text can be read. -/
  run : Cursor → Option (α × Cursor)
  /-- The greatest offset at which a token was refused, if one was. -/
  reach : Cursor → Option Nat
  /-- What was wanted at or past an offset. -/
  failures : Nat → Cursor → List Failure

namespace Parser

variable {α β : Type}

/-! ## Values, sequence and choice -/

/-- Reads nothing. -/
protected def pure (a : α) : Parser α where
  run c := some (a, c)
  reach _ := none
  failures _ _ := []

/-- Reads one thing and then, depending on it, another. -/
protected def bind (p : Parser α) (f : α → Parser β) : Parser β where
  run c := (p.run c).bind fun (a, c') => (f a).run c'
  reach c :=
    match p.run c with
    | none => p.reach c
    | some (a, c') => max (p.reach c) ((f a).reach c')
  failures k c :=
    match p.run c with
    | none => p.failures k c
    | some (a, c') => p.failures k c ++ (f a).failures k c'

instance : Monad Parser where
  pure := Parser.pure
  bind := Parser.bind

/-- Reads the first alternative, or the second where the first cannot be read. -/
protected def orElse (p : Parser α) (q : Unit → Parser α) : Parser α where
  run c := (p.run c).orElse fun _ => (q ()).run c
  reach c :=
    match p.run c with
    | some _ => p.reach c
    | none => max (p.reach c) ((q ()).reach c)
  failures k c :=
    match p.run c with
    | some _ => p.failures k c
    | none => p.failures k c ++ (q ()).failures k c

instance : OrElse (Parser α) := ⟨Parser.orElse⟩

/-! ## Tokens -/

/-- A token read by `step`, described by `want` where it does not stand. -/
def token (want : String) (step : List UInt8 → Option (α × Nat × List UInt8)) : Parser α where
  run c := (step c.rest).map fun (a, n, rest) => (a, ⟨c.offset + n, rest⟩)
  reach c := if (step c.rest).isSome then none else some c.offset
  failures k c :=
    if (step c.rest).isNone ∧ k ≤ c.offset then [.token c.offset want] else []

/-- The bytes after `text`, if the input starts with it. -/
def after : List UInt8 → List UInt8 → Option (List UInt8)
  | [], input => some input
  | _ :: _, [] => none
  | b :: text, b' :: input => if b = b' then after text input else none

/-- Reads a fixed text. -/
def lit (text : String) : Parser Unit :=
  let bytes := Utf8.encode text
  token ("\"" ++ text ++ "\"") fun input =>
    (after bytes input).map fun rest => ((), bytes.length, rest)

/-- Reads a byte of a class. -/
def satisfy (want : String) (member : UInt8 → Bool) : Parser UInt8 :=
  token want fun
    | b :: rest => if member b then some (b, 1, rest) else none
    | [] => none

/-- Reads a valid character other than U+FFFD. -/
def anyChar : Parser Char :=
  token "." fun input =>
    match Utf8.decode? input with
    | some (c, rest) =>
      if c = Utf8.replacement then none else some (c, c.utf8Size, rest)
    | none => none

/-- Reads nothing, and fails. -/
def refuse (want : String) : Parser α := token want fun _ => none

/-- The offset of the current place. -/
def offset : Parser Nat where
  run c := some (c.offset, c)
  reach _ := none
  failures _ _ := []

/-! ## Repetition and lookahead -/

/-- Reads a thing, or nothing. -/
def optional (p : Parser α) : Parser (Option α) := (some <$> p) <|> pure none

/-- Applies a step as often as it can be applied, at most once for each byte of `fuel`. -/
def collect (step : Cursor → Option (α × Cursor)) : List UInt8 → Cursor → List α × Cursor
  | [], c => ([], c)
  | _ :: fuel, c =>
    match step c with
    | none => ([], c)
    | some (a, c') =>
      let (as, last) := collect step fuel c'
      (a :: as, last)

/-- The greatest offset at which a repeated parser was refused a token. -/
def reachMany (p : Parser α) : List UInt8 → Cursor → Option Nat
  | [], c => p.reach c
  | _ :: fuel, c =>
    match p.run c with
    | none => p.reach c
    | some (_, c') => max (p.reach c) (reachMany p fuel c')

/-- What a repeated parser wanted at or past an offset. -/
def failuresMany (p : Parser α) (k : Nat) : List UInt8 → Cursor → List Failure
  | [], c => p.failures k c
  | _ :: fuel, c =>
    match p.run c with
    | none => p.failures k c
    | some (_, c') => p.failures k c ++ failuresMany p k fuel c'

/-- Reads as many things as there are.  Each of them takes at least one byte, so the bytes that
are left bound their number. -/
def many (p : Parser α) : Parser (List α) where
  run c := some (collect p.run c.rest c)
  reach c := reachMany p c.rest c
  failures k c := failuresMany p k c.rest c

/-- Reads one thing, and as many more as there are. -/
def many1 (p : Parser α) : Parser (List α) := do
  let a ← p
  let as ← many p
  return a :: as

/-- Reads nothing, at a place where `p` cannot be read. -/
def absent (want : String) (p : Parser α) : Parser Unit where
  run c := if (p.run c).isSome then none else some ((), c)
  reach c := if (p.run c).isSome then some c.offset else none
  failures k c := if (p.run c).isSome ∧ k ≤ c.offset then [.token c.offset want] else []

/-! ## Rules -/

/-- A grammar rule: what it wanted is grouped under its name. -/
def rule (name : String) (p : Parser α) : Parser α where
  run := p.run
  reach := p.reach
  failures k c :=
    match p.failures k c with
    | [] => []
    | parts => [.rule name c.offset none parts]

/-- A grammar rule that speaks for its parts: where it succeeds, what was refused inside it is
forgotten, and where it fails, its own description is what was wanted. -/
def described (name want : String) (p : Parser α) : Parser α where
  run := p.run
  reach c := if (p.run c).isSome then some c.offset else p.reach c
  failures k c :=
    if (p.run c).isNone ∧ (p.reach c).any (k ≤ ·) then [.rule name c.offset (some want) []] else []

/-! ## Parsing a text -/

/-- Reads a text from its start, or reports what was wanted where it was refused. -/
def parse (p : Parser α) (text : List UInt8) : Except Refusal α :=
  let start : Cursor := ⟨0, text⟩
  match p.run start with
  | some (a, _) => .ok a
  | none =>
    let (offset, wants) := Failure.wanted (p.failures ((p.reach start).getD 0) start)
    .error ⟨offset, wants⟩

/-! ## Laws of reading -/

@[simp] theorem run_pure (a : α) (c : Cursor) : (pure a : Parser α).run c = some (a, c) := rfl

@[simp] theorem run_bind (p : Parser α) (f : α → Parser β) (c : Cursor) :
    (p >>= f).run c = (p.run c).bind fun r => (f r.1).run r.2 := rfl

@[simp] theorem run_orElse (p q : Parser α) (c : Cursor) :
    (p <|> q).run c = (p.run c).orElse fun _ => q.run c := rfl

@[simp] theorem run_rule (name : String) (p : Parser α) (c : Cursor) :
    (rule name p).run c = p.run c := rfl

@[simp] theorem run_described (name want : String) (p : Parser α) (c : Cursor) :
    (described name want p).run c = p.run c := rfl

end Parser

end RegisterTransfer
