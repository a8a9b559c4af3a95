import RegisterTransfer.CommandLine.Command
set_option autoImplicit false

/-!
# Arguments

An argument list is split into a command, options and operands.  The command is the first argument
that is neither a flag nor the value of one, as far as the flags of every command tell; the flags
themselves may stand anywhere.
-/

namespace RegisterTransfer

/-- What is wrong with an argument list. -/
inductive UsageError
  | badFlag (argument : String)
  | unknownFlag (name : String)
  | unknownLetter (letter : Char) (letters : String)
  | missingValue (argument : String)
  | missingLetterValue (letter : Char) (letters : String)
  | invalidValue (value label reason : String)
  | unknownCommand (name : String) (similar : List String)
  | wrongCount (wanted : Arity) (received : Nat)
  deriving DecidableEq, Repr

namespace UsageError

/-- A character in single quotes. -/
def quotedLetter (c : Char) : String :=
  if c = '\'' then "'\\''"
  else if c = '"' then "'\"'"
  else "'" ++ Text.quotedChar c ++ "'"

/-- The error in words. -/
def message : UsageError → String
  | .badFlag argument => "bad flag syntax: " ++ argument
  | .unknownFlag name => "unknown flag: --" ++ name
  | .unknownLetter c letters =>
    "unknown shorthand flag: " ++ quotedLetter c ++ " in -" ++ letters
  | .missingValue argument => "flag needs an argument: " ++ argument
  | .missingLetterValue c letters =>
    "flag needs an argument: " ++ quotedLetter c ++ " in -" ++ letters
  | .invalidValue value label reason =>
    "invalid argument " ++ Text.quoted value ++ " for " ++ Text.quoted label ++ " flag: " ++ reason
  | .unknownCommand name similar =>
    "unknown command " ++ Text.quoted name ++ " for " ++ Text.quoted Command.programName ++
      (if similar.isEmpty then ""
       else "\n\nDid you mean this?\n" ++ String.join (similar.map fun s => "\t" ++ s ++ "\n"))
  | .wrongCount (.exactly n) received =>
    "accepts " ++ toString n ++ " arg(s), received " ++ toString received
  | .wrongCount (.between least most) received =>
    "accepts between " ++ toString least ++ " and " ++ toString most ++ " arg(s), received "
      ++ toString received
  | .wrongCount .any _ => "accepts any number of arguments"

end UsageError

/-! ## The command -/

namespace Command

/-- Whether the next argument is taken for the value of this one, going by the flags of every
command alone. -/
def takesNext (argument : String) : Bool :=
  !argument.toList.contains '=' &&
    match argument.toList with
    | '-' :: '-' :: name =>
      !(globalFlags.any fun f => f.name = String.ofList name && f.isSwitch)
    | ['-', c] =>
      c.toNat < 0x80 && !(globalFlags.any fun f => f.letter = some c && f.isSwitch)
    | _ => false

/-- Whether an argument looks like a flag. -/
def isDashed (argument : String) : Bool := argument.toList.head? = some '-'

/-- The arguments that are neither flags nor values of flags.  A flag whose value would be the last
argument ends the search, and so do two dashes. -/
def candidates : List String → List String
  | [] => []
  | "--" :: _ => []
  | a :: rest =>
    if takesNext a then
      match rest with
      | _ :: r :: rest' => candidates (r :: rest')
      | _ => []
    else if a = "" || isDashed a then candidates rest
    else a :: candidates rest

/-- The arguments without the command. -/
def withoutName (name : String) : List String → List String
  | [] => []
  | "--" :: rest => "--" :: rest
  | a :: rest =>
    if takesNext a then
      match rest with
      | [] => [a]
      | value :: rest' => a :: value :: withoutName name rest'
    else if a = name then rest
    else a :: withoutName name rest

/-- The edit distance of two texts: the number of bytes to insert, erase or replace. -/
def distance (s t : List UInt8) : Nat :=
  let row := t.foldl (fun (above : List Nat) y =>
    let first := above.headD 0 + 1
    let cells := (s.zip (above.zip above.tail)).foldl
      (fun (left, cells) (x, corner, up) =>
        let cell := if x = y then corner else min (min left up) corner + 1
        (cell, cell :: cells))
      (first, [first])
    cells.2.reverse) (List.range (s.length + 1))
  row.getLastD 0

/-- The greatest edit distance at which a command is suggested. -/
def suggestedDistance : Nat := 2

/-- The commands with a name that is near to a text or starts with it. -/
def similar (text : String) : List String :=
  let text := text.toLower
  (named.filter fun c =>
    c ≠ .help &&
      (distance (Utf8.encode text) (Utf8.encode c.name) ≤ suggestedDistance
        || text.toList.isPrefixOf c.name.toList)).map name

/-- The command that the arguments name, and the other arguments. -/
def find (args : List String) : Except UsageError (Command × List String) :=
  match candidates args with
  | [] => .ok (.program, args)
  | name :: _ =>
    match ofName? name with
    | some c => .ok (c, withoutName name args)
    | none => .error (.unknownCommand name (similar name))

end Command

/-! ## Flags and operands -/

namespace Flag

/-- The options with the value of a flag read into them. -/
def assign (f : Flag) (value : String) (o : Options) : Except UsageError Options :=
  (f.set value o).mapError (.invalidValue value f.label)

/-- The flag that a name names. -/
def named? (flags : List Flag) (name : String) : Option Flag := flags.find? (·.name = name)

/-- The flag that a letter names. -/
def lettered? (flags : List Flag) (c : Char) : Option Flag := flags.find? (·.letter = some c)

/-- The options after a flag given by name, and the arguments after it. -/
def readLong (flags : List Flag) (argument : String) (rest : List String) (o : Options) :
    Except UsageError (Options × List String) := do
  let body := argument.toList.drop 2
  if body.head? = some '-' ∨ body.head? = some '=' then throw (.badFlag argument)
  let name := String.ofList (body.takeWhile (· ≠ '='))
  match named? flags name with
  | none => throw (.unknownFlag name)
  | some f =>
    match body.dropWhile (· ≠ '=') with
    | _ :: value => return (← f.assign (String.ofList value) o, rest)
    | [] =>
      if f.isSwitch then return (← f.assign "true" o, rest)
      else
        match rest with
        | value :: rest => return (← f.assign value o, rest)
        | [] => throw (.missingValue argument)

/-- The character of a text's first byte. -/
def firstByte (c : Char) : Char :=
  match Utf8.encode c.toString with
  | b :: _ => Char.ofNat b.toNat
  | [] => c

/-- The options after flags given by letters, and the arguments after them.  The rest of the
letters, or else the next argument, is the value of a letter that takes one. -/
def readLetters (flags : List Flag) (rest : List String) (o : Options) :
    List Char → Except UsageError (Options × List String)
  | [] => .ok (o, rest)
  | c :: cs => do
    -- Letters that start like the flags of a test run are passed over.
    if "test.".toList.isPrefixOf (c :: cs) then return (o, rest)
    match lettered? flags c with
    | none => throw (.unknownLetter (firstByte c) (String.ofList (c :: cs)))
    | some f =>
      match cs with
      | '=' :: v :: value => return (← f.assign (String.ofList (v :: value)) o, rest)
      | _ =>
        if f.isSwitch then readLetters flags rest (← f.assign "true" o) cs
        else if cs ≠ [] then return (← f.assign (String.ofList cs) o, rest)
        else
          match rest with
          | value :: rest => return (← f.assign value o, rest)
          | [] => throw (.missingLetterValue c (String.ofList (c :: cs)))

/-- The options and the operands of an argument list; every argument is an operand after two
dashes.  `fuel` bounds the number of arguments. -/
def read (flags : List Flag) : Nat → List String → Options → Except UsageError (Options × List String)
  | 0, _, o => .ok (o, [])
  | _, [], o => .ok (o, [])
  | fuel + 1, a :: rest, o =>
    match a.toList with
    | ['-', '-'] => .ok (o, rest)
    | '-' :: '-' :: _ => do
      let (o, rest) ← readLong flags a rest o
      read flags fuel rest o
    | '-' :: c :: cs => do
      let (o, rest) ← readLetters flags rest o (c :: cs)
      read flags fuel rest o
    | _ => do
      let (o, operands) ← read flags fuel rest o
      return (o, a :: operands)

end Flag

/-- Whether a number of operands is right. -/
def Arity.accepts : Arity → Nat → Bool
  | .any, _ => true
  | .exactly n, received => received = n
  | .between least most, received => least ≤ received && received ≤ most

/-- A command line that can be carried out. -/
structure Invocation where
  command : Command
  options : Options
  operands : List String
  deriving DecidableEq, Repr

/-- Reads a command line.  Where help is asked for, or the command does nothing of its own, the
number of operands does not matter. -/
def Invocation.parse (args : List String) : Except UsageError Invocation := do
  let (c, args) ← Command.find args
  let (o, operands) ← Flag.read c.allFlags args.length args .standard
  let o := { o with help := o.help || !c.isRunnable }
  if o.help || c.arity.accepts operands.length then return ⟨c, o, operands⟩
  else throw (.wrongCount c.arity operands.length)

end RegisterTransfer
