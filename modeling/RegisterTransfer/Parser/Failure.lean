import RegisterTransfer.Text.Utf8
set_option autoImplicit false

/-!
# Failures of a parser

A parser that refuses a text explains the refusal by a tree: tokens that were wanted, grouped by
the grammar rules that wanted them.  A rule tried twice at one place is one node of that
explanation.  What is reported are the wants at the greatest offset (`Failure.wanted`), as one
line of text with the place and an excerpt (`Refusal.message`).
-/

namespace RegisterTransfer

/-- Why a parser could not read on. -/
inductive Failure
  /-- A token that did not stand at an offset. -/
  | token (offset : Nat) (want : String)
  /-- A grammar rule that failed from an offset: by its own description, or by its parts. -/
  | rule (name : String) (offset : Nat) (want : Option String) (parts : List Failure)
  deriving Repr, Inhabited

namespace Failure

mutual

/-- The offsets and wants of a failure in depth-first order.  A rule already in `seen`, by its
name and offset, adds nothing. -/
def walk (seen : List (String × Nat)) : Failure → List (Nat × String) × List (String × Nat)
  | .token offset want => ([(offset, want)], seen)
  | .rule name offset want parts =>
    if (name, offset) ∈ seen then ([], seen)
    else
      match want with
      | some w => ([(offset, w)], (name, offset) :: seen)
      | none => walkAll ((name, offset) :: seen) parts

/-- The offsets and wants of several failures, in order. -/
def walkAll (seen : List (String × Nat)) :
    List Failure → List (Nat × String) × List (String × Nat)
  | [] => ([], seen)
  | f :: fs =>
    let (here, seen) := walk seen f
    let (there, seen) := walkAll seen fs
    (here ++ there, seen)

end

/-- The greatest offset of a list of wants. -/
def greatestOffset (wants : List (Nat × String)) : Nat :=
  wants.foldl (fun n w => max n w.1) 0

/-- The wants at the greatest offset, in depth-first order. -/
def wanted (fs : List Failure) : Nat × List String :=
  let wants := (walkAll [] fs).1
  let offset := greatestOffset wants
  (offset, (wants.filter fun w => w.1 == offset).map (·.2))

end Failure

/-! ## Refusals -/

/-- The report of a refused text: the offset in bytes, and what was wanted there. -/
structure Refusal where
  offset : Nat
  wants : List String
  deriving DecidableEq, Repr, Inhabited

namespace Refusal

/-- A choice in words: `A`, `A or B`, or `A, B, or C`. -/
def choice : List String → String
  | [] => ""
  | [a] => a
  | [a, b] => a ++ " or " ++ b
  | as => ", ".intercalate as.dropLast ++ ", or " ++ as.getLast?.getD ""

/-- The line and the column of the end of a text, both counted from one. -/
def position (before : List Char) : Nat × Nat :=
  before.foldl (fun (line, column) c => if c = '\n' then (line + 1, 1) else (line, column + 1))
    (1, 1)

/-- The number of bytes of the text that a report shows. -/
def excerptLength : Nat := 10

/-- What the text holds at an offset: its next few bytes in quotes, or `EOF` at its end. -/
def found (text : List UInt8) (offset : Nat) : String :=
  match text.drop offset with
  | [] => "EOF"
  | rest => "'" ++ String.ofList (Utf8.decodeLossy (rest.take excerptLength)) ++ "'"

/-- The report of a refused text as one line: the path, the line and the column, what was wanted
and what the text holds. -/
def message (r : Refusal) (path : String) (text : List UInt8) : String :=
  let (line, column) := position (Utf8.decodeLossy (text.take r.offset))
  path ++ ":" ++ toString line ++ "." ++ toString column ++ ": want " ++ choice r.wants
    ++ "; got " ++ found text r.offset

end Refusal

end RegisterTransfer
