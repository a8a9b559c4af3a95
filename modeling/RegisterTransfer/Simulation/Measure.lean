import RegisterTransfer.Machine.State
import RegisterTransfer.TailCall.Epilogue
set_option autoImplicit false

/-!
# The measure of a state

While the machine works off epilogues and returns from one into the next, the measure of its states
decreases.
-/

namespace RegisterTransfer

/-- The measure of a state under a bound on epilogues, in unbounded integers: every suspended frame
counts for the longest epilogue, and a running function for its own. -/
def State.measure (s : State) (bound : Int) : Int :=
  match s.control with
  | .running f _ pc _ => s.depth * (bound + 2) + f.code.measure pc bound + 1
  | .returning _ => s.depth * (bound + 2)
  | .calling _ _ => 0

/-- The measure of a state as a number of 64 bits. -/
def State.measure64 (s : State) (bound : Int) : Int64 := Int64.ofInt (s.measure bound)

/-- The size of the longest code of a program. -/
def Program.longestCode (p : Program) : Nat :=
  p.definitions.foldl (fun n f => max n f.code.size) 0

/-- A bound that orders the states of a program as `bound` does and is no greater than the size of the
longest code, since no measure counts past the end of the code. -/
def Program.measureBound (p : Program) (bound : Int) : Int := min bound p.longestCode

end RegisterTransfer
