import RegisterTransfer.Machine.External
set_option autoImplicit false

/-!
# Runs of a program

A run takes steps from a state until it returns, is stuck, or has taken as many steps as it may.
-/

namespace RegisterTransfer

/-- How a run ends. -/
inductive Outcome
  | returned (v : Val)
  | stuck (s : Stuck)
  /-- The last step that was allowed has been taken. -/
  | unfinished
  deriving DecidableEq

/-- How a run ends, and the external calls that it made. -/
structure Run where
  outcome : Outcome
  events : List Event
  deriving DecidableEq

/-- Runs from a state for at most a number of steps.  `history` holds the external calls made
before, the latest first. -/
def State.run (p : Program) (env : Environment) : Nat → List Event → State → Run
  | 0, _, s =>
    match s.final? with
    | some v => ⟨.returned v, []⟩
    | none => ⟨.unfinished, []⟩
  | n + 1, history, s =>
    match s.final? with
    | some v => ⟨.returned v, []⟩
    | none =>
      match s.step p (env history) with
      | .error reason => ⟨.stuck ⟨s, reason⟩, []⟩
      | .ok (s', none) => State.run p env n history s'
      | .ok (s', some e) =>
        let rest := State.run p env n (e :: history) s'
        ⟨rest.outcome, e :: rest.events⟩

/-- Runs a program from its initial state for at most a number of steps. -/
def Program.run (p : Program) (env : Environment) (steps : Nat) : Run :=
  State.run p env steps [] (.initial p)

end RegisterTransfer
