import RegisterTransfer.Yaml.Node
import RegisterTransfer.Yaml.Written
set_option autoImplicit false

/-!
# Reading a document

Nodes in brackets may spread over lines freely.  Outside of brackets the column of a node decides
what it belongs to: the entries of a mapping stand in one column, and the value of an entry stands
on the line of its key or further right.  All readers answer `none` for what is no document.
-/

namespace RegisterTransfer.Yaml

/-! ## Nodes in brackets -/

mutual

/-- A node in brackets, or one scalar that is not a block. -/
def flowNode? (flow : Bool) (indent : Nat) : Nat → Place → Option (Node × Place)
  | 0, _ => none
  | fuel + 1, p =>
    match p.rest with
    | '[' :: _ => do
      let (items, q) ← flowItems? indent fuel (p.next.toContent true true)
      return (.seq p.line items, q)
    | '\x7b' :: _ => do
      let (entries, q) ← flowEntries? indent fuel (p.next.toContent true true)
      return (.map p.line entries, q)
    | '"' :: _ | '\'' :: _ => do
      let (text, q) ← quoted? p
      return (.scalar p.line true text, q)
    | _ => do
      let (text, q) ← plain? flow indent p
      return (.scalar p.line false text, q)

/-- The items of a sequence up to its closing bracket.  An item with a colon after it is the key of
a mapping of one entry. -/
def flowItems? (indent : Nat) : Nat → Place → Option (List Node × Place)
  | 0, _ => none
  | fuel + 1, p =>
    if p.rest.head? = some ']' then some ([], p.next)
    else do
      let (node, q) ← flowNode? true indent fuel p
      let q := q.toContent true true
      let (item, q) ←
        if q.rest.head? = some ':' then do
          guard (q.line = p.line)
          let (value, q) ← flowValue? indent fuel (q.next.toContent true true)
          pure (.map p.line [(node, value)], q.toContent true true)
        else pure (node, q)
      let (items, q) ← flowMore? indent fuel q
      return (item :: items, q)

/-- What follows an item of a sequence. -/
def flowMore? (indent : Nat) : Nat → Place → Option (List Node × Place)
  | 0, _ => none
  | fuel + 1, p =>
    match p.rest with
    | ',' :: _ => flowItems? indent fuel (p.next.toContent true true)
    | ']' :: _ => some ([], p.next)
    | _ => none

/-- The entries of a mapping up to its closing bracket. -/
def flowEntries? (indent : Nat) : Nat → Place → Option (List (Node × Node) × Place)
  | 0, _ => none
  | fuel + 1, p =>
    if p.rest.head? = some '\x7d' then some ([], p.next)
    else do
      let (key, q) ←
        if p.rest.head? = some ':' then pure (Node.empty p.line, p)
        else flowNode? true indent fuel p
      let q := q.toContent true true
      let (value, q) ←
        if q.rest.head? = some ':' then do
          guard (q.line = p.line)
          let (value, q) ← flowValue? indent fuel (q.next.toContent true true)
          pure (value, q.toContent true true)
        else pure (Node.empty q.line, q)
      let (entries, q) ←
        match q.rest with
        | ',' :: _ => flowEntries? indent fuel (q.next.toContent true true)
        | '\x7d' :: _ => some ([], q.next)
        | _ => none
      return ((key, value) :: entries, q)

/-- The value of an entry in brackets, which may be left out. -/
def flowValue? (indent : Nat) : Nat → Place → Option (Node × Place)
  | 0, _ => none
  | fuel + 1, p =>
    match p.rest with
    | ',' :: _ | ']' :: _ | '\x7d' :: _ => some (Node.empty p.line, p)
    | _ => flowNode? true indent fuel p

end

/-! ## Nodes by indentation -/

/-- Whether a place is on a new line after the end of a node. -/
def Place.isBelow (q p : Place) : Bool := p.line < q.line || p.column = 0

/-- The place after the colon that makes the node before a key.  The colon stands on the line on
which the key starts. -/
def afterColon? (line : Nat) (p : Place) : Option Place :=
  let q := p.blanks.2
  if q.atIndicator ':' && q.line = line then some q.next else none

mutual

/-- A node inside a block of a given indentation.  On the line of a key, or of the mark that starts
the document, there is no room for a mapping or a sequence by indentation. -/
def blockNode? (parent : Int) (inline : Bool) : Nat → Place → Option (Node × Place)
  | 0, _ => none
  | fuel + 1, p =>
    if p.atIndicator '-' then do
      guard !inline
      let (items, q) ← blockItems? p.column false fuel p
      return (.seq p.line items, q)
    else if p.rest.head? = some '|' || p.rest.head? = some '>' then do
      let (text, q) ← block? parent p
      return (.scalar p.line true text, q)
    else do
      let (node, q) ← flowNode? false (parent + 1).toNat fuel p
      if q.blanks.2.atIndicator ':' then
        guard !inline
        let q ← afterColon? p.line q
        let (entries, q) ← blockEntries? p.column node fuel q
        return (.map p.line entries, q)
      else
        return (node, q)

/-- The entries of a mapping in a given column, from the place after the first key's colon. -/
def blockEntries? (column : Nat) (key : Node) : Nat → Place → Option (List (Node × Node) × Place)
  | 0, _ => none
  | fuel + 1, p => do
    let v := p.toContent false true
    let (value, q) ←
      if v.atEnd || v.atBoundary then pure (Node.empty p.line, p)
      else if v.line = p.line then blockNode? column true fuel v
      else if column < v.column then blockNode? column false fuel v
      else if v.column = column && v.atIndicator '-' then do
        let (items, q) ← blockItems? column true fuel v
        pure (Node.seq v.line items, q)
      else pure (Node.empty p.line, p)
    let n := q.toContent false true
    if n.atEnd || n.atBoundary || n.column < column then
      return ([(key, value)], q)
    else
      guard (n.column = column && n.isBelow q)
      let (key', r) ← flowNode? false (column + 1) fuel n
      let (entries, r) ← blockEntries? column key' fuel (← afterColon? n.line r)
      return ((key, value) :: entries, r)

/-- The items of a sequence in a given column, from its first dash.  A sequence in the column of
the mapping that it is a value in ends at the next key. -/
def blockItems? (column : Nat) (inMapping : Bool) : Nat → Place → Option (List Node × Place)
  | 0, _ => none
  | fuel + 1, p => do
    let v := p.next.toContent false false
    let (item, q) ←
      if v.atEnd || v.atBoundary || (p.line < v.line && v.column ≤ column) then
        pure (Node.empty p.line, p.next)
      else blockNode? column false fuel v
    let n := q.toContent false true
    if n.atEnd || n.atBoundary || n.column < column then
      return ([item], q)
    else
      guard (n.column = column && n.isBelow q)
      if n.atIndicator '-' then
        let (items, q) ← blockItems? column inMapping fuel n
        return (item :: items, q)
      else
        guard inMapping
        return ([item], q)

end

/-! ## Documents -/

/-- The place after the directives and the end marks before a document; a directive must be
followed by the mark that starts a document.  `fuel` bounds their number. -/
def afterDirectives? (directed : Bool) : Nat → Place → Option Place
  | 0, _ => none
  | fuel + 1, p =>
    let p := p.toContent false false
    if p.column = 0 && p.rest.head? = some '%' then afterDirectives? true fuel p.toLineEnd.2
    else if !directed && p.atMarker '.' then afterDirectives? false fuel (p.skip 3)
    else if directed && !p.atMarker '-' then none
    else some p

/-- The root of a document; the characters that start nothing may not follow it. -/
def root? (inline : Bool) (fuel : Nat) (p : Place) : Option Node := do
  if p.atEnd || p.atBoundary then
    return Node.empty p.line
  let (node, q) ← blockNode? (-1) inline fuel p
  guard !((q.toContent false true).rest.head?.any ("@`\t".toList.contains ·))
  return node

/-- The mark that may stand before a text. -/
def byteOrderMark : Char := Char.ofNat 0xFEFF

/-- Reads the first document of a text.  A text without one holds an empty scalar. -/
def Node.parse? (text : String) : Option Node := do
  let chars := text.toList
  guard (chars.all isAllowed)
  let chars := withNewlines (if chars.head? = some byteOrderMark then chars.tail else chars)
  -- Two readers are entered for one character at the most.
  let fuel := 3 * chars.length + 3
  let p ← afterDirectives? false fuel (Place.start chars)
  if p.atMarker '-' then
    let p := p.skip 3
    let v := p.toContent false true
    root? (v.line = p.line) fuel v
  else
    root? false fuel p

end RegisterTransfer.Yaml
