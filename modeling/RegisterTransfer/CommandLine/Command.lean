import RegisterTransfer.CommandLine.Options
set_option autoImplicit false

/-!
# Commands

The commands that a command line can name, with their flags and their help.
-/

namespace RegisterTransfer

/-- The commands; the program without a command is one of them. -/
inductive Command
  | program
  | init
  | transform
  | check
  | help
  | completion
  deriving DecidableEq, Repr, Inhabited

/-- How many operands a command takes. -/
inductive Arity
  | any
  | exactly (n : Nat)
  | between (least most : Nat)
  deriving DecidableEq, Repr, Inhabited

namespace Command

/-- The name of the program. -/
def programName : String := "rtltail"

/-- The name of a command. -/
def name : Command → String
  | .program => programName
  | .init => "init"
  | .transform => "transform"
  | .check => "check"
  | .help => "help"
  | .completion => "completion"

/-- The commands that can be named. -/
def named : List Command := [.init, .transform, .check, .help, .completion]

/-- The command of a name. -/
def ofName? (s : String) : Option Command := named.find? fun c => c.name = s

/-- The names of a command's operands. -/
def operands : Command → String
  | .transform => " [file]"
  | .check => " [file] [transformed]"
  | .help => " [command]"
  | _ => ""

/-- What a command does, in a line. -/
def summary : Command → String
  | .program => "rtltail - tail call conversion for RTL programs"
  | .init => "Write a configuration file with the default settings"
  | .transform => "Convert calls in tail position into tail calls"
  | .check => "Run a program beside its transformation and compare them step by step"
  | .help => "Help about any command"
  | .completion => "Generate the autocompletion script for the specified shell"

/-- What a command does, at length. -/
def description : Command → String
  | .check =>
    "Run a program beside its transformation and compare them step by step.\n\n"
      ++ "With one file, the program is transformed with the current configuration.\n"
      ++ "With two files, the second is taken as the transformation of the first."
  | .help =>
    "Help provides help for any command in the application.\n"
      ++ "Simply type rtltail help [path to command] for full details."
  | .completion =>
    "Generate the autocompletion script for rtltail for the specified shell.\n"
      ++ "See each sub-command's help for details on how to use the generated script."
  | c => c.summary

/-- The number of operands that a command takes. -/
def arity : Command → Arity
  | .transform => .exactly 1
  | .check => .between 1 2
  | _ => .any

/-- Whether a command does something of its own; one that does not shows its help. -/
def isRunnable : Command → Bool
  | .completion => false
  | _ => true

/-- The commands below a command, with their summaries, by name. -/
def parts : Command → List (String × String)
  | .program =>
    [Command.check, .completion, .help, .init, .transform].map fun c => (c.name, c.summary)
  | .completion =>
    ["bash", "fish", "powershell", "zsh"].map fun shell =>
      (shell, "Generate the autocompletion script for " ++ shell)
  | _ => []

/-! ## Flags -/

/-- The flags that every command takes. -/
def globalFlags : List Flag := [.config, .verbose]

/-- The flags of a command, by name.  Where `help` is not wanted, the flag for it is left out, and
the program itself has the flags of every command. -/
def flags (help : Bool) (c : Command) : List Flag :=
  let helpFlag := if help then [Flag.help c.name] else []
  match c with
  | .program => [.config] ++ helpFlag ++ [.verbose]
  | .transform =>
    helpFlag ++ [.output, .timeout, .trace "Print a line for each call considered"]
  | .check => [.externals] ++ helpFlag ++ [.maxSteps, .trace "Print each source state"]
  | _ => helpFlag

/-- The flags that a command line with this command may use. -/
def allFlags (c : Command) : List Flag := c.flags true ++ globalFlags

/-! ## Help -/

/-- A text filled up with blanks to a width. -/
def padded (width : Nat) (s : String) : String :=
  s ++ String.ofList (List.replicate (width - s.length) ' ')

/-- A flag as the help names it. -/
def flagColumn (f : Flag) : String :=
  let label := if f.letter.isSome then "  " ++ f.label else "      " ++ f.label
  if f.operand = "" then label else label ++ " " ++ f.operand

/-- The lines of the help for some flags. -/
def flagLines (flags : List Flag) : String :=
  let width := (flags.map fun f => (flagColumn f).length).foldl max 0
  "\n".intercalate (flags.map fun f => padded (width + 3) (flagColumn f) ++ f.usage)

/-- The command as it is typed. -/
def path (c : Command) : String :=
  if c = .program then programName else programName ++ " " ++ c.name

/-- How a command is used: its forms, the commands below it, and its flags. -/
def usage (help : Bool) (c : Command) : String :=
  let form := if c.isRunnable then "\n  " ++ c.path ++ c.operands ++ " [flags]" else ""
  let width := (c.parts.map fun (name, _) => name.length).foldl max 11
  let parts :=
    if c.parts.isEmpty then ""
    else
      "\n  " ++ c.path ++ " [command]\n\nAvailable Commands:" ++
        String.join (c.parts.map fun (name, summary) =>
          "\n  " ++ padded width name ++ " " ++ summary)
  let own := "\n\nFlags:\n" ++ flagLines (c.flags help)
  let inherited := if c = .program then "" else "\n\nGlobal Flags:\n" ++ flagLines globalFlags
  let more :=
    if c.parts.isEmpty then ""
    else
      "\n\nUse \"" ++ c.path ++ " [command] --help\" for more information about a command."
  "Usage:" ++ form ++ parts ++ own ++ inherited ++ more ++ "\n"

/-- The help for a command. -/
def helpText (c : Command) : String := c.description ++ "\n\n" ++ c.usage true

end Command

end RegisterTransfer
