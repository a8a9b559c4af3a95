import RegisterTransfer.Parser.Basic
import RegisterTransfer.Program
set_option autoImplicit false

/-!
# The text format

The grammar of programs.  A program is an optional line with the name of its first function, then
functions, each with numbered lines; blanks and line comments may stand before every token.  Words
end where a letter, a digit, an underscore, a dollar or a dot no longer follows.

The rules give a `SourceFile`, which still holds the definitions and lines in the order of the
text, with their offsets; the table of functions is made from it in `RegisterTransfer.Reader`.
-/

namespace RegisterTransfer

/-- A numbered line of a function, with the offset of its number. -/
structure SourceLine where
  offset : Nat
  point : Point
  instr : Instr
  deriving DecidableEq, Repr, Inhabited

/-- A function definition, with the offset of its keyword.  Its `header` has no code yet. -/
structure SourceDefinition where
  offset : Nat
  header : Function
  lines : List SourceLine
  deriving DecidableEq, Repr, Inhabited

/-- A text of the format: the name of its first function, if given, and its definitions. -/
structure SourceFile where
  main : Option String
  definitions : List SourceDefinition
  deriving DecidableEq, Repr, Inhabited

namespace Grammar

open RegisterTransfer.Parser

/-! ## Bytes and numerals -/

/-- The decimal digits. -/
def isDigit (b : UInt8) : Bool := 0x30 ≤ b && b ≤ 0x39

/-- The bytes that may start an identifier: letters, `_`, `$` and `.`. -/
def isWordStart (b : UInt8) : Bool :=
  0x61 ≤ b && b ≤ 0x7A || 0x41 ≤ b && b ≤ 0x5A || b == 0x5F || b == 0x24 || b == 0x2E

/-- The bytes that may stand in an identifier. -/
def isWord (b : UInt8) : Bool := isWordStart b || isDigit b

/-- The blanks: space, tab, carriage return and newline. -/
def isBlank (b : UInt8) : Bool := b == 0x20 || b == 0x09 || b == 0x0D || b == 0x0A

/-- The number that decimal digits stand for. -/
def numeral (digits : List UInt8) : Nat :=
  digits.foldl (fun n d => 10 * n + (d.toNat - 0x30)) 0

/-- The text of ASCII bytes. -/
def asciiText (bytes : List UInt8) : String :=
  String.ofList (bytes.map fun b => Char.ofNat b.toNat)

/-! ## Tokens -/

/-- A line comment, up to the newline or to the first byte that starts no valid character. -/
def comment : Parser Unit := do
  lit "//"
  let _ ← many (do absent "!\"\\n\"" (lit "\n"); anyChar)

/-- Blanks and comments. -/
def space : Parser Unit :=
  described "_" "space" do
    let _ ← many ((do let _ ← satisfy "[ \\t\\r\\n]" isBlank) <|> comment)

/-- The end of a word. -/
def wordEnd : Parser Unit := absent "!W" (rule "W" (satisfy "[a-zA-Z0-9_$.]" isWord))

/-- A punctuation mark, after blanks. -/
def mark (text : String) : Parser Unit := do
  space
  lit text

/-- A word of the format, after blanks. -/
def keyword (text : String) : Parser Unit := do
  mark text
  wordEnd

/-- Decimal digits that end a word. -/
def digits : Parser (List UInt8) := do
  let ds ← many1 (satisfy "[0-9]" isDigit)
  wordEnd
  return ds

/-- A number below 2^32. -/
def word32 : Parser UInt32 := do
  let n := numeral (← digits)
  if n < 4294967296 then return UInt32.ofNat n else refuse "a number of 32 bits"

/-- A program point. -/
def point : Parser Point :=
  described "Point" "a program point" do
    space
    word32

/-- A register. -/
def register : Parser Reg :=
  described "Reg" "a register" do
    mark "x"
    word32

/-- A number of 64 bits, with an optional minus sign. -/
def number : Parser Int64 :=
  described "Num" "a number" do
    space
    let sign ← optional (lit "-")
    let n := numeral (← digits)
    let value : Int := if sign.isSome then -n else n
    if -9223372036854775808 ≤ value ∧ value < 9223372036854775808 then return Int64.ofInt value
    else refuse "a number of 64 bits"

/-- An identifier: a word that is not a register. -/
def identifier : Parser String :=
  described "Ident" "an identifier" do
    space
    absent "!Reg" register
    let first ← satisfy "[a-zA-Z_$.]" isWordStart
    let rest ← many (satisfy "[a-zA-Z0-9_$.]" isWord)
    return asciiText (first :: rest)

/-- The end of the text.  A byte that starts no valid character ends it too. -/
def endOfFile : Parser Unit :=
  described "Eof" "end of file" do
    space
    absent "!." anyChar

/-! ## Parts of instructions -/

/-- A fixed text that stands for a value. -/
def name {α : Type} (text : String) (a : α) : Parser α := do
  lit text
  return a

/-- A number in brackets. -/
def bracketed : Parser Int64 := do
  mark "["
  let n ← number
  mark "]"
  return n

/-- A list of registers in parentheses. -/
def registers : Parser (List Reg) :=
  rule "Regs" <|
    (do mark "("; mark ")"; return [])
    <|> (do
      mark "("
      let first ← register
      let rest ← many (do mark ","; register)
      mark ")"
      return first :: rest)

/-- The type of an argument. -/
def valueType : Parser ValueType :=
  described "Type" "a type" do
    space
    let t ← name "int" .int <|> name "long" .long <|> name "float" .float <|> name "any" .any
    wordEnd
    return t

/-- The type of a result. -/
def resultType : Parser ValueType :=
  described "Result" "a result type" <|
    (do keyword "void"; return .void) <|> valueType

/-- The arguments of a signature; the dots of a variable number of arguments come last. -/
def arguments : Parser (List ValueType × Bool) :=
  rule "Args" <|
    (do mark "..."; return ([], true))
    <|> (do
      let first ← valueType
      let rest ← many (do mark ","; valueType)
      let more ← optional (do mark ","; mark "...")
      return (first :: rest, more.isSome))

/-- A signature. -/
def signature : Parser Signature :=
  rule "Sig" do
    keyword "sig"
    mark "("
    let args ← optional arguments
    mark ")"
    mark ":"
    let result ← resultType
    let (args, varargs) := args.getD ([], false)
    return { args, result, varargs }

/-- The point that follows an instruction. -/
def successor : Parser Point :=
  rule "Succ" do
    mark "->"
    point

/-- An operation. -/
def operation : Parser Operation :=
  described "Operation" "an operation" <|
    (do keyword "move"; return .move)
    <|> (do mark "add"; return .addImm (← bracketed))
    <|> (do keyword "add"; return .add)
    <|> (do keyword "sub"; return .sub)
    <|> (do keyword "mul"; return .mul)
    <|> (do mark "int"; return .intConst (← bracketed))
    <|> (do mark "long"; return .longConst (← bracketed))
    <|> (do
      mark "funcaddr"
      mark "["
      let symbol ← identifier
      mark "]"
      return .funcAddr symbol)

/-- A memory chunk. -/
def chunk : Parser Chunk :=
  described "Chunk" "a memory chunk" do
    space
    let c ← name "int32" .int32 <|> name "int64" .int64 <|> name "any64" .any64
    wordEnd
    return c

/-- An addressing mode. -/
def addressing : Parser Addressing :=
  described "Addr" "an addressing mode" <|
    (do mark "indexed"; return .indexed (← bracketed))
    <|> (do mark "stack"; return .stack (← bracketed))

/-- The callee of a call. -/
def callee : Parser Callee :=
  rule "Callee" <|
    (do return .register (← register)) <|> (do return .symbol (← identifier))

/-- A condition. -/
def condition : Parser Condition :=
  described "Cond" "a comparison" do
    space
    let comparison ←
      name "eq" .eq <|> name "ne" .ne <|> name "lt" .lt <|> name "le" .le <|> name "gt" .gt
        <|> name "ge" .ge
    wordEnd
    let imm ← optional bracketed
    return { comparison, imm }

/-! ## Instructions -/

/-- `nop -> 2` -/
def nop : Parser Instr :=
  rule "Nop" do
    keyword "nop"
    return .nop (← successor)

/-- `return` or `return x1` -/
def ret : Parser Instr :=
  rule "Return" do
    keyword "return"
    return .ret (← optional register)

/-- `store int64 indexed[0](x1), x2 -> 4` -/
def store : Parser Instr :=
  rule "Store" do
    keyword "store"
    let c ← chunk
    let addr ← addressing
    let args ← registers
    mark ","
    let src ← register
    return .store c addr args src (← successor)

/-- `tailcall g(x1) sig(int):int` -/
def tailcall : Parser Instr :=
  rule "Tailcall" do
    keyword "tailcall"
    let f ← callee
    let args ← registers
    return .tailcall (← signature) f args

/-- `if lt(x1, x2) -> 3, 4` -/
def branch : Parser Instr :=
  rule "If" do
    keyword "if"
    let c ← condition
    let args ← registers
    let ifTrue ← successor
    mark ","
    return .cond c args ifTrue (← point)

/-- `load int32 stack[8]() -> 2`, after its destination -/
def load (dest : Reg) : Parser Instr :=
  rule "Load" do
    keyword "load"
    let c ← chunk
    let addr ← addressing
    let args ← registers
    return .load c addr args dest (← successor)

/-- `call g(x1) sig(int):int -> 2`, after its destination -/
def call (dest : Reg) : Parser Instr :=
  rule "Call" do
    keyword "call"
    let f ← callee
    let args ← registers
    let sig ← signature
    return .call sig f args dest (← successor)

/-- `add[4](x1) -> 2`, after its destination -/
def compute (dest : Reg) : Parser Instr :=
  rule "Op" do
    let o ← operation
    let args ← registers
    return .op o args dest (← successor)

/-- An instruction that gives a value to a register. -/
def assign : Parser Instr :=
  rule "Assign" do
    let dest ← register
    mark "="
    load dest <|> call dest <|> compute dest

/-- An instruction. -/
def instr : Parser Instr :=
  rule "Instr" <| nop <|> ret <|> store <|> tailcall <|> branch <|> assign

/-! ## Functions and files -/

/-- A numbered line. -/
def line : Parser SourceLine :=
  rule "Line" do
    space
    let start ← offset
    let pc ← point
    mark ":"
    return { offset := start, point := pc, instr := ← instr }

/-- A function definition. -/
def definition : Parser SourceDefinition :=
  rule "Func" do
    space
    let start ← offset
    lit "func"
    wordEnd
    let name ← identifier
    let params ← registers
    let sig ← signature
    keyword "stack"
    let stackSize ← number
    keyword "entry"
    let entry ← point
    mark "\x7b"
    let lines ← many line
    mark "\x7d"
    return { offset := start, header := { name, sig, params, stackSize, entry, code := ∅ }, lines }

/-- The line that names the first function. -/
def mainName : Parser String :=
  rule "Main" do
    keyword "main"
    identifier

/-- A whole text. -/
def file : Parser SourceFile :=
  rule "File" do
    let main ← optional mainName
    let definitions ← many definition
    endOfFile
    return { main, definitions }

end Grammar

end RegisterTransfer
