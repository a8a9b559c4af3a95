import RegisterTransfer.TailCall.Jobs
set_option autoImplicit false

/-!
# A pool of jobs

A group with places for as many jobs as may run at a time.  Places are given in the order of the jobs,
so a job may start as soon as fewer jobs before it have not returned than there are places.  The pool
answers with the first error, and revokes what the jobs look at once there is one.
-/

namespace RegisterTransfer

/-- What a pool keeps of its jobs. -/
structure Pool where
  started : List Nat
  returned : List Nat
  /-- The error of the first job that returned one. -/
  error : Option Interruption
  deriving DecidableEq, Repr

namespace Pool

/-- The pool before any job is started. -/
def empty : Pool := { started := [], returned := [], error := none }

/-- Whether there is a place for a job. -/
def hasPlace (limit : Option Nat) (pool : Pool) (n : Nat) : Bool :=
  limit.all ((List.range n).countP (· ∉ pool.returned) < ·)

/-- The pool after a mark, if it can be made. -/
def accept? (limit : Option Nat) (jobs : Nat) (pool : Pool) : Mark → Option Pool
  | .started n =>
    if n < jobs ∧ n ∉ pool.started ∧ pool.hasPlace limit n then
      some { pool with started := n :: pool.started }
    else none
  | .returned n error =>
    if n ∈ pool.started ∧ n ∉ pool.returned then
      some { pool with returned := n :: pool.returned, error := pool.error <|> error }
    else none
  | .revoked => if pool.error = none then none else some pool

/-- The pool after a list of marks, if they can be made one after the other. -/
def follow? (limit : Option Nat) (jobs : Nat) (pool : Pool) (history : List Mark) : Option Pool :=
  history.foldlM (accept? limit jobs) pool

/-- The answer of the pool to the wait for it, if all jobs have returned. -/
def answer? (limit : Option Nat) (jobs : Nat) (history : List Mark) :
    Option (Option Interruption) := do
  let pool ← follow? limit jobs empty history
  if (List.range jobs).all (· ∈ pool.returned) then some pool.error else none

/-- The pool as a group. -/
def group : Group where
  Allows limit jobs history answer := answer? limit jobs history = some answer

/-- The schedule that takes one job after the other. -/
def inTurn (jobs : Nat) : List Action :=
  (List.range jobs).flatMap fun n => [.start n, .look n, .finish n]

end Pool

/-- The program with its eligible calls turned into tail calls by a pool of jobs, with the trace
that was written; `none` if the pool cannot follow the schedule, or has to wait at its end. -/
def Program.transformPooled (p : Program) (c : Config) (abi : Abi) (sink : TraceSink)
    (schedule : List Action) : Option (Except TransformError (Program × String)) :=
  match p.refusal? c with
  | some e => some (.error e)
  | none =>
    (Pool.answer? c.limit p.definitions.length (p.batch c abi schedule).history).map fun answer =>
      let r := p.convertByJobs c abi sink schedule answer
      r.result.map (·, r.written)

end RegisterTransfer
