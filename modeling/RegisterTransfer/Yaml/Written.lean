import RegisterTransfer.Text.Numeral
import RegisterTransfer.Yaml.Place
set_option autoImplicit false

/-!
# Written scalars

The four ways to write a scalar: plain, in single quotes, in double quotes, and as an indented
block.  Where a scalar goes on over several lines, one line break between its words is a space, and
of more than one the first is dropped.
-/

namespace RegisterTransfer.Yaml

/-- What stands for a number of line breaks inside a scalar. -/
def folded (breaks : Nat) : List Char :=
  if breaks = 1 then [' '] else List.replicate (breaks - 1) '\n'

/-! ## Plain scalars -/

/-- The characters that have a meaning of their own at the start of a node. -/
def indicators : List Char := "-?:,[]\x7b\x7d#&*!|>'\"%@`".toList

/-- Whether a plain scalar can start here.  A dash can if no blank follows, and outside of brackets
so can a question mark and a colon. -/
def startsPlain (flow : Bool) : List Char → Bool
  | [] => false
  | c :: rest =>
    !(isBlank c || c = '\n' || indicators.contains c)
      || (c = '-' && !(rest.head?.any isBlank))
      || (!flow && (c = '?' || c = ':') && !atBlank rest)

/-- Whether a plain scalar ends here. -/
def endsPlain (flow : Bool) : List Char → Bool
  | [] => true
  | c :: rest =>
    isBlank c || c = '\n' || (c = ':' && atBlank rest) || (flow && ",?[]\x7b\x7d".toList.contains c)

/-- The number of line breaks before the next character that is no blank, and its place.  A tab
left of the indentation is refused. -/
def breaks? (indent : Nat) (p : Place) : Option (Nat × Place) :=
  let rec go : List Char → Nat → Nat → Option (Nat × Place)
    | [], lines, column => some (lines, { rest := [], line := p.line + lines, column := column })
    | c :: rest, lines, column =>
      if c = '\n' then go rest (lines + 1) 0
      else if c = '\t' && column < indent then none
      else if isBlank c then go rest lines (column + 1)
      else some (lines, { rest := c :: rest, line := p.line + lines, column := column })
  go p.rest 0 p.column

/-- Whether a plain scalar does not go on at the first word of a later line. -/
def stopsPlain (flow : Bool) (indent : Nat) (p : Place) : Bool :=
  p.atEnd || p.atBoundary || p.rest.head? = some '#' || (!flow && p.column < indent)
    || endsPlain flow p.rest

/-- The words of a plain scalar that follow its first word, and the place after the last; `fuel`
bounds their number. -/
def plainMore (flow : Bool) (indent : Nat) : Nat → Place → Option (List Char × Place)
  | 0, p => some ([], p)
  | fuel + 1, p =>
    let (blanks, q) := p.blanks
    if q.rest.head? = some '\n' then do
      let (lines, q) ← breaks? indent q
      if stopsPlain flow indent q then
        return ([], p)
      let (word, q) := q.span (endsPlain flow)
      let (more, q) ← plainMore flow indent fuel q
      return (folded lines ++ word ++ more, q)
    else if blanks.isEmpty || q.rest.head? = some '#' || endsPlain flow q.rest then
      some ([], p)
    else do
      let (word, q) := q.span (endsPlain flow)
      let (more, q) ← plainMore flow indent fuel q
      return (blanks ++ word ++ more, q)

/-- A plain scalar. -/
def plain? (flow : Bool) (indent : Nat) (p : Place) : Option (String × Place) := do
  guard (startsPlain flow p.rest)
  -- The first character never ends the scalar, whatever it is.
  let (word, q) := p.next.span (endsPlain flow)
  let (more, q) ← plainMore flow indent p.rest.length q
  return (String.ofList (p.rest.take 1 ++ word ++ more), q)

/-! ## Quoted scalars -/

/-- The characters that a backslash and one letter stand for. -/
def escapes : List (Char × Nat) :=
  [('0', 0x00), ('a', 0x07), ('b', 0x08), ('t', 0x09), ('\t', 0x09), ('n', 0x0A), ('v', 0x0B),
   ('f', 0x0C), ('r', 0x0D), ('e', 0x1B), (' ', 0x20), ('"', 0x22), ('\'', 0x27), ('/', 0x2F),
   ('\\', 0x5C), ('N', 0x85), ('_', 0xA0), ('L', 0x2028), ('P', 0x2029)]

/-- The letters after a backslash that announce a code point, with the number of its digits. -/
def codePoints : List (Char × Nat) := [('x', 2), ('u', 4), ('U', 8)]

/-- The character written by an escape, from the place after the backslash. -/
def escape? (p : Place) : Option (Char × Place) := do
  let c ← p.rest.head?
  match escapes.lookup c with
  | some n => return (Char.ofNat n, p.next)
  | none =>
    let digits ← codePoints.lookup c
    let written := p.next.rest.take digits
    guard (written.length = digits)
    let n ← written.foldlM (fun n c => (Numeral.digit? 16 c).map (16 * n + ·)) 0
    guard n.isValidChar
    return (Char.ofNat n, p.next.skip digits)

/-- The rest of a scalar in quotes, and the place after the closing quote; `fuel` bounds its
length. -/
def quotedMore (quote : Char) : Nat → Place → Option (List Char × Place)
  | 0, _ => none
  | fuel + 1, p =>
    if p.atBoundary then none
    else
      match p.rest with
      | [] => none
      | c :: rest =>
        if c = quote then
          if quote = '\'' && rest.head? = some '\'' then do
            let (more, q) ← quotedMore quote fuel (p.skip 2)
            return ('\'' :: more, q)
          else
            some ([], p.next)
        else if c = '\\' && quote = '"' then
          if rest.head? = some '\n' then
            -- An escaped line break joins its two lines, with no indentation between them.
            quotedMore quote fuel p.next.next.blanks.2
          else do
            let (x, q) ← escape? p.next
            let (more, q) ← quotedMore quote fuel q
            return (x :: more, q)
        else if isBlank c || c = '\n' then
          let (blanks, q) := p.blanks
          if q.rest.head? = some '\n' then do
            let (lines, q) ← breaks? 0 q
            let (more, q) ← quotedMore quote fuel q
            return (folded lines ++ more, q)
          else do
            let (more, q) ← quotedMore quote fuel q
            return (blanks ++ more, q)
        else do
          let (more, q) ← quotedMore quote fuel p.next
          return (c :: more, q)

/-- A scalar in quotes. -/
def quoted? (p : Place) : Option (String × Place) := do
  let quote ← p.rest.head?
  let (text, q) ← quotedMore quote (p.rest.length + 1) p.next
  return (String.ofList text, q)

/-! ## Block scalars -/

/-- What becomes of the line breaks at the end of a block. -/
inductive Chomping
  | clip
  | strip
  | keep
  deriving DecidableEq, Repr, Inhabited

/-- The sign of a chomping. -/
def chomping? (c : Char) : Option Chomping :=
  if c = '-' then some .strip else if c = '+' then some .keep else none

/-- The header of a block after its indicator: a chomping and an indentation, in either order. -/
def blockHeader? (p : Place) : Option (Chomping × Option Nat × Place) := do
  let indentation? := fun (c : Char) =>
    if '1' ≤ c ∧ c ≤ '9' then some (c.toNat - '0'.toNat) else none
  let marks := (p.rest.take 2).takeWhile fun c =>
    (chomping? c).isSome || (indentation? c).isSome
  let (signs, digits) := (marks.filterMap chomping?, marks.filterMap indentation?)
  guard (signs.length ≤ 1 ∧ digits.length ≤ 1)
  let q := (p.skip marks.length).blanks.2
  let q := if q.rest.head? = some '#' then q.toLineEnd.2 else q
  guard (q.atEnd || q.rest.head? = some '\n')
  return (signs.head?.getD .clip, digits.head?, q.next)

/-- The indentation of the first line of a block that is not blank; `fuel` bounds the lines. -/
def detectedIndent : Nat → Nat → Place → Nat
  | 0, least, _ => least
  | fuel + 1, least, p =>
    let q := (p.span fun cs => cs.head? ≠ some ' ').2
    if q.rest.head? = some '\n' then detectedIndent fuel (max least q.column) q.next
    else max least q.column

/-- The lines of a block, blank ones as `none`, and the place after them; `fuel` bounds their
number. -/
def blockLines (indent : Nat) : Nat → Place → List (Option (List Char)) × Place
  | 0, p => ([], p)
  | fuel + 1, p =>
    let spaces := min indent (p.rest.takeWhile (· = ' ')).length
    let q := p.skip spaces
    if q.atEnd || q.atBoundary then ([], p)
    else if q.rest.head? = some '\n' then
      let (lines, q) := blockLines indent fuel q.next
      (none :: lines, q)
    else if spaces < indent then ([], p)
    else
      let (line, q) := q.toLineEnd
      let (lines, q) := blockLines indent fuel q.next
      (some line :: lines, q)

/-- The text of a block up to its last line that is not blank.  In a block that is folded, a break
between two lines that start with no blank is folded. -/
def blockText (fold : Bool) : Option (List Char) → Nat → List (Option (List Char)) → List Char
  | _, _, [] => []
  | before, breaks, none :: lines => blockText fold before (breaks + 1) lines
  | before, breaks, some line :: lines =>
    let deep := fun (l : List Char) => l.head?.any isBlank
    let between :=
      match before with
      | none => List.replicate breaks '\n'
      | some l =>
        if fold && !deep l && !deep line then folded (breaks + 1)
        else List.replicate (breaks + 1) '\n'
    between ++ line ++ blockText fold (some line) 0 lines

/-- A block scalar, from its indicator on, inside a block of a given indentation. -/
def block? (parent : Int) (p : Place) : Option (String × Place) := do
  let fold := p.rest.head? = some '>'
  let (chomping, indentation, q) ← blockHeader? p.next
  let indent :=
    match indentation with
    | some n => (max parent 0).toNat + n
    | none => detectedIndent p.rest.length (max (parent + 1) 1).toNat q
  let (lines, q) := blockLines indent p.rest.length q
  let trailing := (lines.reverse.takeWhile Option.isNone).length
  let isEmpty := lines.length = trailing
  let final :=
    match chomping with
    | .strip => 0
    | .clip => if isEmpty then 0 else 1
    | .keep => if isEmpty then trailing else trailing + 1
  return (String.ofList (blockText fold none 0 lines ++ List.replicate final '\n'), q)

end RegisterTransfer.Yaml
