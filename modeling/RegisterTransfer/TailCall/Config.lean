import RegisterTransfer.Signature
set_option autoImplicit false

/-!
# Settings of the conversion

How far the conversion of calls into tail calls looks, which calls the calling convention lets it
convert, and how many functions it converts at a time.
-/

namespace RegisterTransfer

/-- The settings: the number of instructions that an epilogue may have, the number of arguments
that are passed in registers, and the number of functions converted at a time, zero for all. -/
structure Config where
  bound : Int
  maxRegArgs : Int
  workers : Int
  deriving DecidableEq, Repr, Inhabited

/-- A setting that may not be negative. -/
inductive ConfigError
  | negativeBound (n : Int)
  | negativeMaxRegArgs (n : Int)
  | negativeWorkers (n : Int)
  deriving DecidableEq, Repr

/-- The error in words. -/
def ConfigError.message : ConfigError → String
  | .negativeBound n => "bound must be non-negative, got " ++ toString n
  | .negativeMaxRegArgs n => "max_reg_args must be non-negative, got " ++ toString n
  | .negativeWorkers n => "workers must be non-negative, got " ++ toString n

namespace Config

/-- The number of processors of a machine of which nothing is known. -/
def usualProcessors : Int := 4

/-- The settings that are in force where none are given: as many functions are converted at a time
as there are processors. -/
def standard (processors : Int := usualProcessors) : Config :=
  { bound := 5, maxRegArgs := 8, workers := processors }

/-- The first setting that is negative. -/
def error? (c : Config) : Option ConfigError :=
  if c.bound < 0 then some (.negativeBound c.bound)
  else if c.maxRegArgs < 0 then some (.negativeMaxRegArgs c.maxRegArgs)
  else if c.workers < 0 then some (.negativeWorkers c.workers)
  else none

/-- The settings as a document, one to a line. -/
def text (c : Config) : String :=
  "bound: " ++ toString c.bound ++ "\nmax_reg_args: " ++ toString c.maxRegArgs ++ "\nworkers: "
    ++ toString c.workers ++ "\n"

end Config

/-! ## Calling conventions -/

/-- A calling convention: whether a call with the first signature, made from a function with the
second, can reuse the caller's frame. -/
abbrev Abi := Signature → Signature → Bool

/-- The convention that passes the first few arguments in registers and the rest on the caller's
stack: no argument may be passed on the stack, and the results must have one type. -/
def Abi.registers (maxRegArgs : Int) : Abi := fun callee caller =>
  !callee.varargs && callee.args.length ≤ maxRegArgs && callee.result = caller.result

/-- The calling convention of the settings. -/
def Config.abi (c : Config) : Abi := Abi.registers c.maxRegArgs

end RegisterTransfer
