import RegisterTransfer.Grammar
set_option autoImplicit false

/-!
# Reading programs

`Program.parse` reads a text of the format and makes a program of it.  A function name defined
twice, or a point used twice in one function, is refused at its second place; the first such place
in the order of the text is reported.
-/

namespace RegisterTransfer

/-- The name of the first function of a text that does not give it. -/
def defaultMain : String := "main"

/-- The code of numbered lines, or the refusal of the first point that comes a second time. -/
def SourceLine.assemble (code : Code) : List SourceLine → Except Refusal Code
  | [] => .ok code
  | l :: rest =>
    if (code.at? l.point).isSome then .error ⟨l.offset, ["a point not already defined"]⟩
    else assemble (code.set l.point l.instr) rest

/-- The table of definitions, or the refusal of the first name or point that comes a second time.
A repeated name is refused before the lines of its definition are looked at. -/
def SourceDefinition.assemble (table : FinMap String (Option Function)) :
    List SourceDefinition → Except Refusal (FinMap String (Option Function))
  | [] => .ok table
  | d :: rest =>
    if table.contains d.header.name then
      .error ⟨d.offset, ["a function not already defined"]⟩
    else
      match SourceLine.assemble ∅ d.lines with
      | .error r => .error r
      | .ok code => assemble (table.insert d.header.name (some { d.header with code })) rest

/-- The program of a text. -/
def SourceFile.program (f : SourceFile) : Except Refusal Program :=
  (SourceDefinition.assemble ∅ f.definitions).map fun functions =>
    { main := f.main.getD defaultMain, functions }

/-- Reads a program from the bytes of a text. -/
def Program.parse (text : List UInt8) : Except Refusal Program :=
  (Grammar.file.parse text).bind SourceFile.program

end RegisterTransfer
