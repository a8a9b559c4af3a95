import RegisterTransfer.CommandLine.Duration
import RegisterTransfer.Simulation.Lockstep
import RegisterTransfer.Text.Numeral
set_option autoImplicit false

/-!
# Options of the command line

What the flags of a command line set, and the flags themselves: each has a name, perhaps a letter,
and a rule that reads its value into the options.
-/

namespace RegisterTransfer

/-- The file of the settings where no other is given. -/
def defaultConfigFile : String := ".rtltail.yaml"

/-- What the flags of a command line set. -/
structure Options where
  config : String
  verbose : Bool
  help : Bool
  output : String
  /-- The time that a conversion may take, in nanoseconds. -/
  timeout : Int
  trace : Bool
  /-- The constants of the external functions; of two for one name the first counts. -/
  externals : List (String × Int)
  maxSteps : Int
  deriving DecidableEq, Repr

/-- The options of a command line without flags. -/
def Options.standard : Options where
  config := defaultConfigFile
  verbose := false
  help := false
  output := ""
  timeout := 60000000000
  trace := false
  externals := []
  maxSteps := defaultMaxSteps

instance : Inhabited Options := ⟨.standard⟩

/-- A flag of the command line. -/
structure Flag where
  name : String
  letter : Option Char
  /-- Whether the flag stands for `true` where no value is given. -/
  isSwitch : Bool
  /-- What the help calls the value. -/
  operand : String
  /-- What the help says of the flag. -/
  usage : String
  /-- The value in the options of a text, or why the text is refused. -/
  set : String → Options → Except String Options

namespace Flag

/-- The flag as messages name it. -/
def label (f : Flag) : String :=
  match f.letter with
  | some c => "-" ++ c.toString ++ ", --" ++ f.name
  | none => "--" ++ f.name

/-! ## Values -/

/-- A truth value. -/
def readBool (text : String) : Except String Bool :=
  if ["1", "t", "T", "TRUE", "true", "True"].contains text then .ok true
  else if ["0", "f", "F", "FALSE", "false", "False"].contains text then .ok false
  else .error ("strconv.ParseBool: parsing " ++ Text.quoted text ++ ": invalid syntax")

/-- An integer in base ten, or, if `named`, in the base that its first characters name. -/
def readInt (named : Bool) (text : String) : Except String Int :=
  (Numeral.int64 named text).mapError (Numeral.Failure.message (Text.quoted text))

/-- A duration. -/
def readDuration (text : String) : Except String Int :=
  (Duration.parse text).mapError (Duration.Failure.message text)

/-- A name with a number after an equals sign. -/
def readPair (text : String) : Except String (String × Int) :=
  let cs := text.toList
  match cs.dropWhile (· ≠ '=') with
  | [] => .error (text ++ " must be formatted as key=value")
  | _ :: value => do
    return (String.ofList (cs.takeWhile (· ≠ '=')), ← readInt false (String.ofList value))

/-- Names with numbers, separated by commas. -/
def readPairs (text : String) : Except String (List (String × Int)) :=
  (text.splitOn ",").mapM readPair

/-! ## The flags -/

/-- A flag that takes no value, or a truth value. -/
def switch (name : String) (letter : Option Char) (usage : String)
    (put : Bool → Options → Options) : Flag where
  name := name
  letter := letter
  isSwitch := true
  operand := ""
  usage := usage
  set text o := return put (← readBool text) o

/-- A flag that takes a text. -/
def text (name : String) (letter : Option Char) (usage : String)
    (put : String → Options → Options) : Flag where
  name := name
  letter := letter
  isSwitch := false
  operand := "string"
  usage := usage
  set text o := .ok (put text o)

/-- The file of the settings. -/
def config : Flag :=
  text "config" none ("Configuration file (default " ++ Text.quoted defaultConfigFile ++ ")")
    fun s o => { o with config := s }

/-- More of the log. -/
def verbose : Flag :=
  switch "verbose" (some 'v') "Enable development logging" fun b o => { o with verbose := b }

/-- The help for a command. -/
def help (command : String) : Flag :=
  switch "help" (some 'h') ("help for " ++ command) fun b o => { o with help := b }

/-- The file of the converted program. -/
def output : Flag :=
  text "output" (some 'o') "Output path (default standard output)"
    fun s o => { o with output := s }

/-- A trace of what a command does. -/
def trace (usage : String) : Flag :=
  switch "trace" none usage fun b o => { o with trace := b }

/-- The time that a conversion may take. -/
def timeout : Flag where
  name := "timeout"
  letter := none
  isSwitch := false
  operand := "duration"
  usage := "Set a timeout for the transformation (default 1m0s)"
  set text o := return { o with timeout := ← readDuration text }

/-- The external functions of a check. -/
def externals : Flag where
  name := "ext"
  letter := none
  isSwitch := false
  operand := "stringToInt64"
  usage := "External functions as name=k; each returns k plus the sum of its integer arguments"
    ++ " (default [])"
  set text o := return { o with externals := (← readPairs text).reverse ++ o.externals }

/-- The number of source steps of a check. -/
def maxSteps : Flag where
  name := "max-steps"
  letter := none
  isSwitch := false
  operand := "int"
  usage := "Maximum number of source steps (default " ++ toString defaultMaxSteps ++ ")"
  set text o := return { o with maxSteps := ← readInt true text }

end Flag

end RegisterTransfer
