import RegisterTransfer.Machine.Run
set_option autoImplicit false

/-!
# Traced sessions

A session takes the steps of a run one at a time and keeps a transcript of them.  Every step that
is tried adds a heading with its number and the state before it, then the instruction to be
executed, if there is one, and the event of an external call.
-/

namespace RegisterTransfer

/-- A number in decimal digits, padded with zeros to three of them. -/
def stepNumber (n : Nat) : String :=
  let digits := toString n
  String.ofList (List.replicate (3 - digits.length) '0') ++ digits

/-- The transcript of a step from a state: its number, and what it finds. -/
def State.trace (p : Program) (externals : Externals) (n : Nat) (s : State) : String :=
  let heading := "--- step " ++ stepNumber n ++ ": " ++ s.text ++ "\n"
  let detail :=
    match s.control with
    | .running f _ pc _ =>
      match f.code.at? pc with
      | some i => f.name ++ ":" ++ toString pc.toNat ++ ": " ++ i.text ++ "\n"
      | none => ""
    | .calling _ _ =>
      match s.step p externals with
      | .ok (_, some e) => "external " ++ e.text ++ "\n"
      | _ => ""
    | .returning _ => ""
  heading ++ detail

/-- A run that is taken step by step. -/
structure Session where
  program : Program
  env : Environment
  state : State
  /-- The external calls made so far, the latest first. -/
  history : List Event
  /-- The number of steps tried so far. -/
  tried : Nat
  transcript : String

namespace Session

/-- The session at the initial state of a program. -/
def start (p : Program) (env : Environment) : Session :=
  { program := p, env, state := .initial p, history := [], tried := 0, transcript := "" }

/-- Takes a step: the session after it, and its event or the reason why it is stuck.  A stuck
session keeps its state. -/
def step (s : Session) : Session × Except Stuck (Option Event) :=
  let externals := s.env s.history
  let transcript := s.transcript ++ s.state.trace s.program externals s.tried
  let s := { s with tried := s.tried + 1, transcript }
  match s.state.step s.program externals with
  | .error reason => (s, .error ⟨s.state, reason⟩)
  | .ok (state, event) => ({ s with state, history := event.toList ++ s.history }, .ok event)

/-- The session after at most a number of steps, stopping where the state is final or stuck. -/
def advance : Nat → Session → Session
  | 0, s => s
  | n + 1, s =>
    match s.state.final? with
    | some _ => s
    | none =>
      match s.step with
      | (s', .ok _) => advance n s'
      | (s', .error _) => s'

end Session

end RegisterTransfer
