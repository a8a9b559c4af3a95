import RegisterTransfer.Machine.External
import RegisterTransfer.Simulation.Match
import RegisterTransfer.Simulation.Measure
import RegisterTransfer.Wellformed
set_option autoImplicit false

/-!
# Running two programs in lockstep

A source program and its target run side by side.  The target may skip source steps: the epilogue
after a call that it made as a tail call, and the return into the frame that it never pushed.  Each
skipped step must decrease the measure of the source state.  Every other source step is matched by
one target step, with matching events, and after every step the states must match.

The comparison ends when the source returns, is stuck, or has taken as many steps as it may, or
with the first divergence.
-/

namespace RegisterTransfer

namespace Witness

/-- Whether the next source step has no target step: the source returns into an elided frame, or
it runs an epilogue while the target has returned already. -/
def skips (w : Witness) (s t : State) : Bool :=
  match s.control, t.control with
  | .returning _, _ => !s.stack.isEmpty && w.elided.head?.getD false
  | .running .., .returning _ => true
  | _, _ => false

/-- The witness after a step of the source that the target skips. -/
def afterSkip (w : Witness) (s : State) : Witness :=
  match s.control with
  | .returning _ =>
    match s.stack with
    | fr :: _ => ⟨w.elided.tail, fr.result⟩
    | [] => w
  | .running f _ pc _ =>
    match f.code.at? pc with
    | some i@(.op _ _ dest _) =>
      if i.moveSource? = some w.expect then { w with expect := dest } else w
    | _ => w
  | .calling .. => w

/-- The witness after a step of both programs, by the depths of their stacks before and after.  A
call that the target makes without pushing a frame elides the source's; `none` if there is no frame
to be popped. -/
def afterPair? (w : Witness) (source source' target target' : Nat) : Option Witness :=
  if source < source' then some { w with elided := (target' == target) :: w.elided }
  else if source' < source then
    match w.elided with
    | _ :: rest => some { w with elided := rest }
    | [] => none
  else some w

end Witness

/-- Two programs, the externals of both, and the bound on epilogues. -/
structure Simulation.Setting where
  source : Program
  target : Program
  env : Environment
  bound : Int

/-- Both programs in the middle of a comparison. -/
structure Lockstep where
  source : State
  target : State
  witness : Witness
  /-- The external calls of both programs, the latest first. -/
  history : List Event
  /-- The source steps taken. -/
  steps : Nat
  /-- The source steps that the target skipped. -/
  stutters : Nat
  /-- The most steps that the target skipped in a row. -/
  maxStutterRun : Nat
  /-- The steps that the target has skipped in a row just now. -/
  stutterRun : Nat
  /-- The measure of the source where that row started. -/
  runStart : Int64
  /-- The external calls of the source, the latest first. -/
  events : List Event
  deriving DecidableEq

/-- How a comparison ends. -/
inductive Verdict
  /-- Both programs returned. -/
  | returned (v w : Val)
  | sourceStuck
  /-- The source has taken the last step that was allowed. -/
  | truncated
  | diverged (r : Reason)
  /-- The witness does not fit the source's stack. -/
  | inconsistent
  deriving DecidableEq

namespace Lockstep

/-- Both programs at their initial states. -/
def start (c : Simulation.Setting) : Lockstep where
  source := .initial c.source
  target := .initial c.target
  witness := .start
  history := []
  steps := 0
  stutters := 0
  maxStutterRun := 0
  stutterRun := 0
  runStart := 0
  events := []

/-- Checks that the states match, or says how the comparison ends. -/
def confirm (c : Simulation.Setting) (k : Lockstep) : Except (Lockstep × Verdict) Lockstep :=
  if k.witness.elided.length ≠ k.source.stack.length then .error (k, .inconsistent)
  else
    match k.witness.mismatch? c.bound k.source k.target with
    | some r => .error (k, .diverged r)
    | none => .ok k

/-- A source step that the target skips, the source's measure before it given. -/
def skip (c : Simulation.Setting) (k : Lockstep) (before : Int64) (event : Option Event) :
    Except (Lockstep × Verdict) Lockstep :=
  match event with
  | some e => .error (k, .diverged (.skippedEvent e))
  | none =>
    let after := k.source.measure64 c.bound
    if before ≤ after then .error (k, .diverged (.measure before after))
    else
      let runStart := if k.stutterRun = 0 then before else k.runStart
      let run := k.stutterRun + 1
      let k := { k with runStart, stutterRun := run, stutters := k.stutters + 1 }
      if runStart.toInt < run then .error (k, .diverged (.skippedSteps run runStart))
      else .ok { k with maxStutterRun := max k.maxStutterRun run }

/-- A target step beside a source step with an event, the source's depth before it given. -/
def pair (c : Simulation.Setting) (k : Lockstep) (depth : Nat) (event : Option Event) :
    Except (Lockstep × Verdict) Lockstep :=
  let k := { k with stutterRun := 0 }
  match k.target.step c.target (c.env k.history) with
  | .error reason => .error (k, .diverged (.targetStuck ⟨k.target, reason⟩))
  | .ok (t, event') =>
    let before := k.target.depth
    let k := { k with target := t, history := event'.toList ++ k.history }
    match Event.mismatch? event event' with
    | some r => .error (k, .diverged r)
    | none =>
      match k.witness.afterPair? depth k.source.depth before t.depth with
      | some witness => .ok { k with witness }
      | none => .error (k, .inconsistent)

/-- The comparison after a source step to the state `s` with an event, before the target's part. -/
def moved (k : Lockstep) (s : State) (event : Option Event) : Lockstep :=
  { k with
    source := s
    witness := if k.witness.skips k.source k.target then k.witness.afterSkip k.source else k.witness
    steps := k.steps + 1
    history := event.toList ++ k.history
    events := event.toList ++ k.events }

/-- The comparison after a source step to the state `s` with an event: the target skips the step or
takes one beside it. -/
def follow (c : Simulation.Setting) (k : Lockstep) (s : State) (event : Option Event) :
    Except (Lockstep × Verdict) Lockstep :=
  if k.witness.skips k.source k.target then
    (k.moved s event).skip c (k.source.measure64 c.bound) event
  else (k.moved s event).pair c k.source.depth event

/-- One source step with what the target does beside it. -/
def advance (c : Simulation.Setting) (k : Lockstep) : Except (Lockstep × Verdict) Lockstep :=
  match k.source.step c.source (c.env k.history) with
  | .error _ => .error (k, .sourceStuck)
  | .ok (s, event) => do
    let k ← k.follow c s event
    k.confirm c

/-- The comparison from the middle, for at most a number of further source steps. -/
def run (c : Simulation.Setting) : Nat → Lockstep → Lockstep × Verdict
  | 0, k =>
    match k.source.final?, k.target.final? with
    | some v, some w => (k, .returned v w)
    | some _, none => (k, .diverged .targetNotFinal)
    | none, _ => (k, .truncated)
  | n + 1, k =>
    match k.source.final?, k.target.final? with
    | some v, some w => (k, .returned v w)
    | some _, none => (k, .diverged .targetNotFinal)
    | none, _ =>
      match k.advance c with
      | .error result => result
      | .ok k' => run c n k'

/-- The source states before each step of a comparison, with the numbers of the steps. -/
def trace (c : Simulation.Setting) : Nat → Lockstep → List String
  | 0, _ => []
  | n + 1, k =>
    match k.source.final? with
    | some _ => []
    | none =>
      (toString k.steps ++ ": " ++ k.source.text ++ "\n")
        :: (match k.advance c with
          | .error _ => []
          | .ok k' => trace c n k')

end Lockstep

/-! ## Comparing programs -/

/-- The result of a comparison. -/
structure Simulation where
  last : Lockstep
  verdict : Verdict
  deriving DecidableEq

/-- The number of source steps where no other is given. -/
def defaultMaxSteps : Int := 100000

namespace Simulation

/-- The number of source steps that a comparison may take; zero stands for the default. -/
def stepLimit (maxSteps : Int) : Nat :=
  (if maxSteps = 0 then defaultMaxSteps else maxSteps).toNat

/-- The setting of a comparison; the bound on epilogues is cut to what the source can reach. -/
def Setting.of (p q : Program) (bound : Int) (env : Environment) : Setting :=
  { source := p, target := q, env, bound := p.measureBound bound }

/-- The comparison from the initial states. -/
def start (c : Setting) (steps : Nat) : Simulation :=
  let k := Lockstep.start c
  match k.confirm c with
  | .error (k, .diverged r) => ⟨k, .diverged (.initial r)⟩
  | .error (k, v) => ⟨k, v⟩
  | .ok k =>
    let (last, verdict) := k.run c steps
    ⟨last, verdict⟩

/-- Compares a target program with its source.  Both must be well formed. -/
def run (p q : Program) (bound : Int) (env : Environment) (maxSteps : Int) :
    Except Malformed Simulation :=
  match p.malformed?, q.malformed? with
  | some m, _ => .error m
  | none, some m => .error m
  | none, none => .ok (start (.of p q bound env) (stepLimit maxSteps))

/-- The transcript of a comparison: the source state before each step. -/
def transcript (p q : Program) (bound : Int) (env : Environment) (maxSteps : Int) : String :=
  match p.malformed?, q.malformed? with
  | none, none =>
    let c := Setting.of p q bound env
    match (Lockstep.start c).confirm c with
    | .ok k => String.join (k.trace c (stepLimit maxSteps))
    | .error _ => ""
  | _, _ => ""

/-- The external calls of the source, in order. -/
def events (c : Simulation) : List Event := c.last.events.reverse

/-- The report of a divergence: the number of source steps, the reason and both states. -/
def divergence (c : Simulation) (r : Reason) : String :=
  "step " ++ toString c.last.steps ++ ": " ++ r.message ++ "\n\tsource: " ++ c.last.source.text
    ++ "\n\ttarget: " ++ c.last.target.text

end Simulation

end RegisterTransfer
