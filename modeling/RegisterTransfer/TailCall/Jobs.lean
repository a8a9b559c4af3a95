import RegisterTransfer.TailCall.Transform
set_option autoImplicit false

/-!
# Conversion by jobs

The functions of a program can be converted by jobs that run side by side.  A job looks once whether
the conversion was interrupted, and then either gives up or converts its function slot by slot and
keeps the trace of it.  A schedule is any list of actions of the jobs and of the outside world; actions
that are not possible where they stand do nothing.

Who runs the jobs is a parameter, a `Group`: it starts the jobs that are given to it, takes what they
return, and answers once it has been waited for.  Without an error in its answer, what the jobs have
made is put together in the order of the names.
-/

namespace RegisterTransfer

/-! ## Jobs -/

/-- A function while it is converted: the slots that are done, and the trace of them. -/
structure Draft where
  slots : Array (Option Instr)
  trace : String
  deriving DecidableEq

namespace Draft

/-- The draft of a function of which nothing is done. -/
def empty : Draft := ⟨#[], ""⟩

/-- The draft with one more slot of its function done, if one is left. -/
def next (f : Function) (rule : Rule) (d : Draft) : Draft :=
  match f.code.slots[d.slots.size]? with
  | some slot =>
    { slots := d.slots.push (slot.map (f.convert rule))
      trace := d.trace ++ (slot.bind (f.decision? rule (UInt32.ofNat d.slots.size))).getD "" }
  | none => d

/-- The draft with at most a number of further slots done. -/
def advance (f : Function) (rule : Rule) : Nat → Draft → Draft
  | 0, d => d
  | n + 1, d => advance f rule n (d.next f rule)

/-- The number of slots of the function that are left. -/
def left (f : Function) (d : Draft) : Nat := f.code.size - d.slots.size

end Draft

/-- How far a job is. -/
inductive Job
  | waiting
  | started
  /-- It has found no interruption. -/
  | working (draft : Draft)
  /-- It has found an interruption. -/
  | stopping (why : Interruption)
  | done (result : Function) (trace : String)
  | interrupted (why : Interruption)
  deriving DecidableEq

namespace Job

/-- The job of a function that has no slot left. -/
def ofDraft (f : Function) (d : Draft) : Job := .done { f with code := ⟨d.slots⟩ } d.trace

/-- The job once it is started. -/
def start : Job → Job
  | .waiting => .started
  | job => job

/-- The job once it has looked for an interruption. -/
def look (interruption : Option Interruption) : Job → Job
  | .started =>
    match interruption with
    | none => .working .empty
    | some why => .stopping why
  | job => job

/-- The job of a function after it has converted one slot, or has returned. -/
def work (rule : Rule) (f : Function) : Job → Job
  | .working d => if d.left f = 0 then .ofDraft f d else .working (d.next f rule)
  | .stopping why => .interrupted why
  | job => job

/-- The job of a function after it has converted all slots that are left, and has returned. -/
def finish (rule : Rule) (f : Function) : Job → Job
  | .working d => .ofDraft f (d.advance f rule (d.left f))
  | .stopping why => .interrupted why
  | job => job

/-- The error that the job has returned, if it has returned one, once it has returned. -/
def returned? : Job → Option (Option Interruption)
  | .done .. => some none
  | .interrupted why => some (some why)
  | _ => none

/-- What the job has left so far: the converted function, if there is one, and the trace. -/
def product : Job → Option Function × String
  | .done f trace => (some f, trace)
  | .working d => (none, d.trace)
  | _ => (none, "")

end Job

/-! ## Groups -/

/-- What a group knows of its jobs, which have numbers in the order in which they are given to it. -/
inductive Mark
  | started (job : Nat)
  | returned (job : Nat) (error : Option Interruption)
  /-- The group has revoked what the jobs look at, so that they find an interruption. -/
  | revoked
  deriving DecidableEq, Repr

/-- The error of a job that has returned one. -/
def Mark.error? : Mark → Option Interruption
  | .returned _ error => error
  | _ => none

/-- The group has revoked what the jobs look at only after one of them had returned an error. -/
def Mark.Orderly (history : List Mark) : Prop :=
  ∀ before after, history = before ++ .revoked :: after → ∃ mark ∈ before, mark.error? ≠ none

/-- A group that runs jobs: what may pass between its creation and the end of the wait for it, by the
limit on the jobs that run at a time and the number of jobs, together with its answer. -/
structure Group where
  Allows (limit : Option Nat) (jobs : Nat) (history : List Mark) (answer : Option Interruption) : Prop

/-- What is relied upon of a group. -/
structure Group.Lawful (group : Group) : Prop where
  /-- Every job that is given to the group is run once, and has returned before the wait ends. -/
  runs_once {limit : Option Nat} {jobs : Nat} {history : List Mark} {answer : Option Interruption}
    (h : group.Allows limit jobs history answer) (n : Nat) (hn : n < jobs) :
    history.count (.started n) = 1 ∧ ∃ error, .returned n error ∈ history
  /-- An error that is answered is the first one that a job returned. -/
  answers_first {limit : Option Nat} {jobs : Nat} {history : List Mark} {why : Interruption}
    (h : group.Allows limit jobs history (some why)) : history.findSome? Mark.error? = some why
  /-- No error is answered only if every job returned without one. -/
  answers_none {limit : Option Nat} {jobs : Nat} {history : List Mark}
    (h : group.Allows limit jobs history none) (n : Nat) (error : Option Interruption)
    (hreturned : .returned n error ∈ history) : error = none
  /-- The group makes the jobs find an interruption only after one of them has returned an error. -/
  revokes_after {limit : Option Nat} {jobs : Nat} {history : List Mark}
    {answer : Option Interruption} (h : group.Allows limit jobs history answer) :
    Mark.Orderly history

/-! ## Batches -/

/-- An action of the outside world, of the group, or of a job, given by its number. -/
inductive Action
  | interrupt (why : Interruption)
  | revoke
  | start (job : Nat)
  | look (job : Nat)
  /-- The job converts one slot, or returns if none is left. -/
  | work (job : Nat)
  /-- The job converts all slots that are left, and returns. -/
  | finish (job : Nat)
  deriving DecidableEq, Repr

/-- A batch of jobs, one for each function, in the order of the names. -/
structure Batch where
  /-- What a job finds that looks for an interruption. -/
  interruption : Option Interruption
  jobs : List (Function × Job)
  /-- What the group knows of the jobs. -/
  history : List Mark
  deriving DecidableEq

namespace Batch

/-- The batch before anything has happened. -/
def ofFunctions (functions : List Function) : Batch :=
  { interruption := none, jobs := functions.map (·, .waiting), history := [] }

/-- What a group gets to know of a change of a job. -/
def marks (n : Nat) (job job' : Job) : List Mark :=
  (if job = .waiting ∧ job' ≠ .waiting then [.started n] else [])
    ++ if job.returned? = none then (job'.returned?.map (.returned n ·)).toList else []

/-- The batch with a job changed. -/
def change (batch : Batch) (n : Nat) (move : Function → Job → Job) : Batch :=
  match batch.jobs[n]? with
  | some (f, job) =>
    { batch with
      jobs := batch.jobs.set n (f, move f job)
      history := batch.history ++ marks n job (move f job) }
  | none => batch

/-- The batch after an action.  What has interrupted the jobs first counts. -/
def act (rule : Rule) (batch : Batch) : Action → Batch
  | .interrupt why => { batch with interruption := batch.interruption <|> some why }
  | .revoke =>
    { batch with
      interruption := batch.interruption <|> some .canceled
      history := batch.history ++ [.revoked] }
  | .start n => batch.change n fun _ => Job.start
  | .look n => batch.change n fun _ => Job.look batch.interruption
  | .work n => batch.change n (Job.work rule)
  | .finish n => batch.change n (Job.finish rule)

/-- The batch after a schedule. -/
def run (rule : Rule) (batch : Batch) (schedule : List Action) : Batch :=
  schedule.foldl (act rule) batch

/-- What the jobs have left, in order. -/
def products (batch : Batch) : List (Option Function × String) := batch.jobs.map (·.2.product)

end Batch

/-! ## Programs -/

/-- Where the trace of a conversion goes. -/
inductive TraceSink
  /-- No trace is wanted. -/
  | none
  | kept
  /-- Every attempt to write fails. -/
  | broken
  deriving DecidableEq, Repr

/-- What comes of the conversion of a program. -/
structure Conversion where
  result : Except TransformError Program
  /-- What was written of the trace. -/
  written : String

/-- The limit on the jobs that run at a time, if the settings give one. -/
def Config.limit (c : Config) : Option Nat := if 0 < c.workers then some c.workers.toNat else none

namespace Program

/-- The program of what the jobs have left, and the trace that was written. -/
def gather (p : Program) (sink : TraceSink) (products : List (Option Function × String)) :
    Conversion :=
  let functions := FinMap.ofList (p.names.zip (products.map (·.1)))
  let trace := String.join (products.map (·.2))
  match sink with
  | .none => ⟨.ok { p with functions }, ""⟩
  | .kept => ⟨.ok { p with functions }, trace⟩
  | .broken => ⟨if trace = "" then .ok { p with functions } else .error .brokenTrace, ""⟩

/-- The jobs of a program after a schedule. -/
def batch (p : Program) (c : Config) (abi : Abi) (schedule : List Action) : Batch :=
  (Batch.ofFunctions p.definitions).run ⟨c.bound, abi⟩ schedule

/-- The conversion of a program by jobs, under a schedule, with the answer of the group. -/
def convertByJobs (p : Program) (c : Config) (abi : Abi) (sink : TraceSink)
    (schedule : List Action) (answer : Option Interruption) : Conversion :=
  match p.refusal? c with
  | some e => ⟨.error e, ""⟩
  | none =>
    match answer with
    | some why => ⟨.error (.interrupted why), ""⟩
    | none => p.gather sink (p.batch c abi schedule).products

end Program

end RegisterTransfer
