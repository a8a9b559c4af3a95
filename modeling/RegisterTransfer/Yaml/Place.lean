set_option autoImplicit false

/-!
# Places in a document

A place is what is left of a document's text with the line, from one, and the column, from zero,
at which it starts.  Before reading, every form of line break becomes a newline.
-/

namespace RegisterTransfer.Yaml

/-- Whether a document may hold a character. -/
def isAllowed (c : Char) : Bool :=
  let n := c.toNat
  n = 0x09 || n = 0x0A || n = 0x0D || (0x20 ≤ n && n ≤ 0x7E) || n = 0x85
    || (0xA0 ≤ n && n ≤ 0xD7FF) || (0xE000 ≤ n && n ≤ 0xFFFD) || 0x10000 ≤ n

/-- The text with one form of line break. -/
def withNewlines : List Char → List Char
  | [] => []
  | '\r' :: '\n' :: rest => '\n' :: withNewlines rest
  | c :: rest =>
    let n := c.toNat
    let c := if n = 0x0D ∨ n = 0x85 ∨ n = 0x2028 ∨ n = 0x2029 then '\n' else c
    c :: withNewlines rest

/-- Whether a character is a space or a tab. -/
def isBlank (c : Char) : Bool := c = ' ' || c = '\t'

/-- Whether the text starts with a blank or a line break, or is empty. -/
def atBlank : List Char → Bool
  | [] => true
  | c :: _ => isBlank c || c = '\n'

/-- What is left of a document, and where it starts. -/
structure Place where
  rest : List Char
  line : Nat
  column : Nat
  deriving DecidableEq, Repr, Inhabited

namespace Place

/-- The first place of a text. -/
def start (text : List Char) : Place := { rest := text, line := 1, column := 0 }

/-- The place after one character. -/
def next (p : Place) : Place :=
  match p.rest with
  | [] => p
  | '\n' :: rest => { rest := rest, line := p.line + 1, column := 0 }
  | _ :: rest => { rest := rest, line := p.line, column := p.column + 1 }

/-- The place after some characters. -/
def skip : Nat → Place → Place
  | 0, p => p
  | n + 1, p => skip n p.next

/-- Whether nothing is left. -/
def atEnd (p : Place) : Bool := p.rest.isEmpty

/-- The characters before the first place of the line at which `stop` holds of the text left; the
end of the line stops too. -/
def span (stop : List Char → Bool) (p : Place) : List Char × Place :=
  let rec go : List Char → Nat → List Char × Place
    | [], column => ([], { rest := [], line := p.line, column := column })
    | c :: rest, column =>
      if c = '\n' || stop (c :: rest) then
        ([], { rest := c :: rest, line := p.line, column := column })
      else
        let (found, q) := go rest (column + 1)
        (c :: found, q)
  go p.rest p.column

/-- The blanks at the place, and the place after them. -/
def blanks (p : Place) : List Char × Place :=
  p.span fun
    | [] => true
    | c :: _ => !isBlank c

/-- The rest of the line, and the place at its end. -/
def toLineEnd (p : Place) : List Char × Place := p.span fun _ => false

/-- Whether the place is at the start of a line that starts with three given characters and then a
blank or nothing. -/
def atMarker (c : Char) (p : Place) : Bool :=
  p.column = 0 &&
    match p.rest with
    | x :: y :: z :: rest => x = c && y = c && z = c && atBlank rest
    | _ => false

/-- Whether the place is at a mark that starts or ends a document. -/
def atBoundary (p : Place) : Bool := p.atMarker '-' || p.atMarker '.'

/-- Whether the place is at an indicator: a given character with a blank or nothing after it. -/
def atIndicator (c : Char) (p : Place) : Bool :=
  match p.rest with
  | x :: rest => x = c && atBlank rest
  | [] => false

/-- The next place with neither a blank, a comment nor a line break.  A tab counts as a blank if
`tabs` holds; on later lines of a block it never does. -/
def toContent (flow : Bool) (tabs : Bool) (p : Place) : Place :=
  let rec go : Bool → Bool → List Char → Nat → Nat → Place
    | _, _, [], line, column => { rest := [], line := line, column := column }
    | comment, tabs, c :: rest, line, column =>
      if c = '\n' then go false flow rest (line + 1) 0
      else if comment || c = '#' then go true tabs rest line (column + 1)
      else if c = ' ' || (tabs && c = '\t') then go false tabs rest line (column + 1)
      else { rest := c :: rest, line := line, column := column }
  go false tabs p.rest p.line p.column

end Place

end RegisterTransfer.Yaml
