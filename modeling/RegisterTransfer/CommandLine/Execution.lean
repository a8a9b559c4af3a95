import RegisterTransfer.CommandLine.Arguments
import RegisterTransfer.CommandLine.Files
import RegisterTransfer.CommandLine.Log
import RegisterTransfer.Machine.External
import RegisterTransfer.Reader
import RegisterTransfer.TailCall.Pool
import RegisterTransfer.TailCall.Converted
import RegisterTransfer.TailCall.Settings
set_option autoImplicit false

/-!
# Execution of a command line

The execution of a command line reads and writes files, and leaves a report: what it printed, what
it logged and whether it failed.
-/

namespace RegisterTransfer

/-- What an execution leaves. -/
structure Report where
  failed : Bool
  stdout : String
  stderr : String
  logs : List LogLine
  deriving DecidableEq, Repr

namespace Report

/-- The report of an execution that did nothing. -/
def empty : Report := { failed := false, stdout := "", stderr := "", logs := [] }

instance : Inhabited Report := ⟨empty⟩

end Report

/-- A part of an execution: it may end the execution early. -/
abbrev Execution (m : Type → Type) := ExceptT Unit (StateT Report m)

namespace Execution

variable {m : Type → Type} [Monad m]

/-- Writes to the standard output. -/
def print (text : String) : Execution m Unit :=
  modify fun r => { r with stdout := r.stdout ++ text }

/-- Writes to the standard error. -/
def complain (text : String) : Execution m Unit :=
  modify fun r => { r with stderr := r.stderr ++ text }

/-- Writes a line of the log; lines for debugging are written if the options ask for them. -/
def log (o : Options) (line : LogLine) : Execution m Unit :=
  if line.level = .debug && !o.verbose then pure ()
  else modify fun r => { r with logs := r.logs ++ [line] }

/-- Ends the execution without success. -/
def fail {α : Type} : Execution m α := do
  modify fun r => { r with failed := true }
  throw ()

/-- Logs an error and ends the execution without success. -/
def failWith {α : Type} (o : Options) (message : String) (fields : List (String × LogValue))
    (error : String) : Execution m α := do
  log o ⟨.error, message, fields ++ [("error", .text error)]⟩
  fail

/-- The report of an execution. -/
def report (s : Execution m Unit) : m Report := do
  let (_, o) ← (s.run).run Report.empty
  return o

/-! ## Settings and programs -/

/-- The settings of the file that the options name; without a file, the standard settings. -/
def config (files : Files m) (processors : Int) (o : Options) : Execution m Config := do
  match ← liftM (files.read o.config) with
  | .error e =>
    if e.obstacle = .missing then
      log o ⟨.debug, "No configuration file, using defaults", [("config", .text o.config)]⟩
      return Config.standard processors
    else
      failWith o "Error loading config" [] e.message
  | .ok bytes =>
    match Config.parse (String.ofList (Utf8.decodeLossy bytes)) processors with
    | .error e => failWith o "Error loading config" [] (o.config ++ ": " ++ e.message)
    | .ok c =>
      log o ⟨.debug, "Loaded configuration",
        [("config", .text o.config), ("bound", .number c.bound),
          ("max_reg_args", .number c.maxRegArgs), ("workers", .number c.workers)]⟩
      return c

/-- The program of a file, or why there is none. -/
def program? (files : Files m) (path : String) : Execution m (Except String Program) := do
  match ← liftM (files.read path) with
  | .error e => return .error e.message
  | .ok bytes => return (Program.parse bytes).mapError fun r => r.message path bytes

/-- The program of a file. -/
def program (files : Files m) (o : Options) (path : String) : Execution m Program := do
  match ← program? files path with
  | .ok p => return p
  | .error e => failWith o "Error parsing program" [("file", .text path)] e

/-! ## Commands -/

/-- Writes a file with the standard settings. -/
def init (files : Files m) (processors : Int) (o : Options) : Execution m Unit := do
  let path := if o.config = "" then defaultConfigFile else o.config
  match ← liftM (files.write path (Utf8.encode (Config.standard processors).text)) with
  | .ok () => print ("Configuration file created/updated: " ++ o.config ++ "\n")
  | .error e => failWith o "Error initializing config file" [] e.message

/-- The schedule of a conversion: one function after the other, unless there is no time for it. -/
def schedule (o : Options) (p : Program) : List Action :=
  (if o.timeout ≤ 0 then [.interrupt .deadline] else []) ++ Pool.inTurn p.names.length

/-- Converts the calls of a program, and writes it. -/
def transform (files : Files m) (processors : Int) (o : Options) (path : String) :
    Execution m Unit := do
  let c ← config files processors o
  let p ← program files o path
  let sink : TraceSink := if o.trace then .kept else .none
  match p.transformPooled c c.abi sink (schedule o p) with
  | none => fail
  | some (.error e) =>
    failWith o "Error transforming program" [("file", .text path)] e.message
  | some (.ok (q, trace)) =>
    complain trace
    let converted := Converted.between p q
    log o ⟨.info, "Transformed program",
      [("file", .text path), ("functions", .number p.functions.size),
        ("tailcalls", .number converted.count), ("rewritten", .text converted.text)]⟩
    if o.output = "" then print q.text
    else
      match ← liftM (files.write o.output (Utf8.encode q.text)) with
      | .ok () => return ()
      | .error e =>
        if e.action = .writing then failWith o "Error writing program" [] e.message
        else failWith o "Error creating output file" [] e.message

/-- The external functions of the options: each adds its arguments to its constant. -/
def environment (o : Options) : Environment :=
  External.environment (o.externals.map fun (name, k) => (name, .sum (Int32.ofInt k)))

/-- How a check that did not diverge ended. -/
def ending : Verdict → String
  | .returned v w => ", result " ++ v.text ++ ", target " ++ w.text
  | .sourceStuck => " (source went wrong)"
  | _ => " (step limit reached)"

/-- Compares a program with its conversion, or with a program that stands for it. -/
def check (files : Files m) (processors : Int) (o : Options) (path : String)
    (target : Option String) : Execution m Unit := do
  let c ← config files processors o
  let p ← program files o path
  let converted ←
    match target with
    | some other => program? files other
    | none => pure ((p.transform c c.abi).mapError TransformError.message)
  match converted with
  | .error e => failWith o "Error reading transformed program" [] e
  | .ok q =>
    let env := environment o
    if o.trace then complain (Simulation.transcript p q c.bound env o.maxSteps)
    match Simulation.run p q c.bound env o.maxSteps with
    | .error e => failWith o "Error checking program" [("file", .text path)] e.message
    | .ok s =>
      match s.verdict with
      | .diverged reason =>
        print ("FAIL " ++ path ++ "\n" ++ s.divergence reason ++ "\n")
        fail
      | verdict =>
        log o ⟨.debug, "Checked program",
          [("file", .text path), ("steps", .number s.last.steps),
            ("stutters", .number s.last.stutters),
            ("max_stutter_run", .number s.last.maxStutterRun),
            ("events", .number s.events.length)]⟩
        print ("PASS " ++ path ++ ": " ++ toString s.last.steps ++ " steps, "
          ++ toString s.last.stutters ++ " skipped by the target" ++ ending verdict ++ "\n")

/-- A word in back quotes, or in double quotes where back quotes cannot hold it. -/
def topic (s : String) : String :=
  let plain := s.toList.all fun c =>
    c = '\t' || (0x20 ≤ c.toNat && c.toNat ≠ 0x60 && c.toNat ≠ 0x7F && c.toNat ≠ 0xFEFF)
  if plain then "`" ++ s ++ "`" else Text.quoted s

/-- Shows the help for the command that the operands name. -/
def help (operands : List String) : Execution m Unit :=
  match Command.find operands with
  | .ok (c, _) => print c.helpText
  | .error _ =>
    complain ("Unknown help topic [" ++ " ".intercalate (operands.map topic) ++ "]\n"
      ++ Command.usage false .program)

/-- Carries out a command line. -/
def perform (files : Files m) (processors : Int) (i : Invocation) : Execution m Unit :=
  if i.options.help then print i.command.helpText
  else
    match i.command, i.operands with
    | .init, _ => init files processors i.options
    | .transform, path :: _ => transform files processors i.options path
    | .check, path :: rest => check files processors i.options path rest.head?
    | .help, operands => help operands
    | c, _ => print c.helpText

/-- Carries out an argument list on a machine with a number of processors. -/
def run (files : Files m) (args : List String) (processors : Int := Config.usualProcessors) : m Report :=
  report <|
    match Invocation.parse args with
    | .ok i => perform files processors i
    | .error e => do
      complain ("error: " ++ e.message ++ "\n")
      fail

end Execution

end RegisterTransfer
