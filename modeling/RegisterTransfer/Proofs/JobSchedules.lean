import Mathlib.Data.List.Induction
import RegisterTransfer.Proofs.Conversion
import RegisterTransfer.Proofs.PoolLaws
set_option autoImplicit false

/-!
# Schedules of jobs

Whatever the order in which the jobs of a batch are started, work and return, each of them makes of
its function what the conversion of the function alone makes, trace included, or has found an
interruption and returns it; and a group knows of every job that was started or has returned
(`Batch.Valid`).  So under every lawful group the conversion by jobs is the conversion in order, or
it was interrupted and says so (`Program.convertByJobs_cases`).  A pool never gets stuck: what it has
followed can be continued to an answer (`Program.exists_transformPooled`).
-/

namespace RegisterTransfer

/-! ## Drafts -/

/-- The decisions that are traced for numbered slots of a function. -/
def Function.decisions (f : Function) (rule : Rule) (slots : List (Option Instr × Nat)) :
    List String :=
  slots.filterMap fun e => e.1.bind (f.decision? rule (UInt32.ofNat e.2))

theorem Function.trace_eq_join (f : Function) (rule : Rule) :
    f.trace rule = String.join (f.decisions rule f.code.slots.toList.zipIdx) := by
  unfold trace decisions Code.lines
  rw [List.filterMap_filterMap]
  congr 1
  apply List.filterMap_congr
  rintro ⟨slot, n⟩ _
  cases slot <;> rfl

namespace Draft

variable {f : Function} {rule : Rule} {d : Draft}

/-- The slots that are done are as they will be in the converted function, and the trace is that of
these slots. -/
structure Valid (f : Function) (rule : Rule) (d : Draft) : Prop where
  slots : d.slots.toList = (f.transform rule).code.slots.toList.take d.slots.size
  trace : d.trace = String.join (f.decisions rule (f.code.slots.toList.zipIdx.take d.slots.size))

theorem Valid.empty (f : Function) (rule : Rule) : Valid f rule .empty := ⟨rfl, rfl⟩

theorem Valid.next (h : d.Valid f rule) : (d.next f rule).Valid f rule := by
  unfold Draft.next
  split
  · rename_i slot hslot
    constructor
    · have hconverted : (f.transform rule).code.slots.toList[d.slots.size]?
          = some (slot.map (f.convert rule)) := by
        simp [Function.transform, Code.mapInstrs, hslot]
      simp only [Array.toList_push, Array.size_push]
      rw [List.take_add_one, ← h.slots, hconverted]
      rfl
    · have hdecided : f.code.slots.toList.zipIdx[d.slots.size]? = some (slot, d.slots.size) := by
        simp [hslot]
      simp only [Array.size_push]
      rw [List.take_add_one, hdecided, Function.decisions, List.filterMap_append,
        String.join_append, ← Function.decisions, ← h.trace]
      cases hdecision : slot.bind (f.decision? rule (UInt32.ofNat d.slots.size)) <;>
        simp [hdecision]
  · exact h

theorem Valid.advance (n : Nat) (h : d.Valid f rule) : (d.advance f rule n).Valid f rule := by
  induction n generalizing d with
  | zero => exact h
  | succ n ih => exact ih h.next

theorem left_next : (d.next f rule).left f = d.left f - 1 := by
  unfold next
  split
  · simp only [left, Array.size_push]
    omega
  · rename_i hslot
    have hsize : f.code.size ≤ d.slots.size := Array.getElem?_eq_none_iff.mp hslot
    unfold left
    omega

theorem left_advance (n : Nat) : (d.advance f rule n).left f = d.left f - n := by
  induction n generalizing d with
  | zero => rfl
  | succ n ih =>
    rw [Draft.advance, ih, left_next]
    omega

/-- A draft with no slot left is the converted function with its trace. -/
theorem Valid.ofDraft (h : d.Valid f rule) (hleft : d.left f = 0) :
    Job.ofDraft f d = .done (f.transform rule) (f.trace rule) := by
  have hsize : f.code.slots.size ≤ d.slots.size := by
    simpa [left, Code.size, Nat.sub_eq_zero_iff_le] using hleft
  have hslots : d.slots = (f.transform rule).code.slots := by
    apply Array.toList_inj.mp
    rw [h.slots, List.take_of_length_le]
    simpa [Function.transform, Code.mapInstrs] using hsize
  have htrace : d.trace = f.trace rule := by
    rw [h.trace, List.take_of_length_le (by simpa using hsize), Function.trace_eq_join]
  rw [Job.ofDraft, hslots, htrace]
  rfl

end Draft

/-! ## Jobs -/

namespace Job

variable {f : Function} {rule : Rule} {interruption interruption' : Option Interruption} {job : Job}

/-- What is known of a job of a function, given what a job finds that looks for an interruption. -/
def Valid (f : Function) (rule : Rule) (interruption : Option Interruption) : Job → Prop
  | .waiting | .started => True
  | .working d => d.Valid f rule
  | .stopping why | .interrupted why => interruption = some why
  | .done g trace => g = f.transform rule ∧ trace = f.trace rule

theorem Valid.of_interruption (h : job.Valid f rule interruption)
    (hkept : ∀ why, interruption = some why → interruption' = some why) :
    job.Valid f rule interruption' := by
  cases job with
  | stopping why | interrupted why => exact hkept why h
  | _ => exact h

/-- What every move of a job does: the job stays valid, does not wait again, and stays as it is once
it has returned. -/
structure Move (f : Function) (rule : Rule) (interruption : Option Interruption)
    (move : Job → Job) : Prop where
  valid : ∀ job, job.Valid f rule interruption → (move job).Valid f rule interruption
  not_waiting : ∀ job, job ≠ .waiting → move job ≠ .waiting
  of_returned : ∀ job, job.returned? ≠ none → move job = job

theorem Move.start (f : Function) (rule : Rule) (interruption : Option Interruption) :
    Move f rule interruption start where
  valid job h := by
    cases job with
    | waiting => trivial
    | _ => exact h
  not_waiting job h := by cases job <;> simp_all [Job.start]
  of_returned job h := by cases job <;> simp_all [Job.start, returned?]

theorem Move.look (f : Function) (rule : Rule) (interruption : Option Interruption) :
    Move f rule interruption (look interruption) where
  valid job h := by
    cases job with
    | started =>
      cases interruption with
      | none => exact Draft.Valid.empty f rule
      | some why => exact (rfl : some why = some why)
    | _ => exact h
  not_waiting job h := by cases job <;> cases interruption <;> simp_all [Job.look]
  of_returned job h := by cases job <;> simp_all [Job.look, returned?]

theorem Move.work (f : Function) (rule : Rule) (interruption : Option Interruption) :
    Move f rule interruption (work rule f) where
  valid job h := by
    cases job with
    | working d =>
      have hd : d.Valid f rule := h
      simp only [Job.work]
      split
      · rename_i hleft
        rw [hd.ofDraft hleft]
        exact ⟨rfl, rfl⟩
      · exact hd.next
    | _ => exact h
  not_waiting job h := by
    cases job with
    | working d =>
      simp only [Job.work]
      split <;> simp [ofDraft]
    | _ => simp_all [Job.work]
  of_returned job h := by cases job <;> simp_all [Job.work, returned?]

theorem Move.finish (f : Function) (rule : Rule) (interruption : Option Interruption) :
    Move f rule interruption (finish rule f) where
  valid job h := by
    cases job with
    | working d =>
      have hd : d.Valid f rule := h
      have hdone := (hd.advance (d.left f)).ofDraft (by rw [Draft.left_advance]; omega)
      simp only [Job.finish, hdone]
      exact ⟨rfl, rfl⟩
    | _ => exact h
  not_waiting job h := by cases job <;> simp_all [Job.finish, ofDraft]
  of_returned job h := by cases job <;> simp_all [Job.finish, returned?]

/-- A job that is given its turn returns, however far it was. -/
theorem returned?_turn (rule : Rule) (f : Function) (interruption : Option Interruption)
    (job : Job) : ((job.start.look interruption).finish rule f).returned? ≠ none := by
  cases job with
  | waiting | started =>
    cases interruption <;> simp [Job.start, Job.look, Job.finish, ofDraft, returned?]
  | _ => simp [Job.start, Job.look, Job.finish, ofDraft, returned?]

/-- What a history says of a job. -/
structure Known (history : List Mark) (n : Nat) (job : Job) : Prop where
  started : .started n ∈ history ↔ job ≠ .waiting
  returned : ∀ error, .returned n error ∈ history ↔ job.returned? = some error

end Job

/-! ## Batches -/

/-- The interruption that an action is, if it is one. -/
def Action.interruption? : Action → Option Interruption
  | .interrupt why => some why
  | _ => none

namespace Batch

variable {rule : Rule} {batch : Batch} {functions : List Function} {f : Function} {job job' : Job}
  {m n : Nat} {move : Function → Job → Job} {error : Option Interruption} {why : Interruption}

theorem started_mem_marks :
    .started m ∈ marks n job job' ↔ m = n ∧ job = .waiting ∧ job' ≠ .waiting := by
  unfold marks
  split <;> split <;> simp_all

theorem returned_mem_marks :
    .returned m error ∈ marks n job job' ↔
      m = n ∧ job.returned? = none ∧ job'.returned? = some error := by
  unfold marks
  split <;> split <;> simp_all [and_comm, eq_comm]

/-- A group gets to know of the change of a job. -/
theorem known_marks {history : List Mark} {interruption : Option Interruption}
    (h : job.Known history n) (hmove : Job.Move f rule interruption (move f)) :
    (move f job).Known (history ++ marks n job (move f job)) n where
  started := by
    rw [List.mem_append, h.started, started_mem_marks]
    constructor
    · rintro (hjob | ⟨_, _, hjob⟩)
      · exact hmove.not_waiting job hjob
      · exact hjob
    · intro hjob
      by_cases hwaiting : job = .waiting
      · exact .inr ⟨rfl, hwaiting, hjob⟩
      · exact .inl hwaiting
  returned error := by
    rw [List.mem_append, h.returned, returned_mem_marks]
    by_cases hjob : job.returned? = none
    · simp [hjob]
    · simp [hmove.of_returned job hjob, hjob]

/-- The other jobs have no part in it. -/
theorem known_marks_of_ne {history : List Mark} {other : Job} (h : other.Known history m)
    (hne : m ≠ n) : other.Known (history ++ marks n job job') m where
  started := by simp [h.started, started_mem_marks, hne]
  returned error := by simp [h.returned, returned_mem_marks, hne]

/-- What is known of a batch with a job for every function. -/
structure Valid (functions : List Function) (rule : Rule) (batch : Batch) : Prop where
  functions : batch.jobs.map Prod.fst = functions
  jobs : ∀ e ∈ batch.jobs, e.2.Valid e.1 rule batch.interruption
  known : ∀ n (e : Function × Job), batch.jobs[n]? = some e → e.2.Known batch.history n
  bound : ∀ n error, .returned n error ∈ batch.history → n < batch.jobs.length

theorem Valid.ofFunctions (functions : List Function) (rule : Rule) :
    Valid functions rule (ofFunctions functions) where
  functions := by simp [Batch.ofFunctions, Function.comp_def]
  jobs e hmem := by
    obtain ⟨f, _, rfl⟩ := List.mem_map.mp hmem
    trivial
  known n e hn := by
    obtain ⟨f, _, rfl⟩ := List.mem_map.mp (List.mem_of_getElem? hn)
    exact ⟨by simp [Batch.ofFunctions], by simp [Batch.ofFunctions, Job.returned?]⟩
  bound n error hmem := by cases hmem

theorem Valid.length_jobs (h : batch.Valid functions rule) :
    batch.jobs.length = functions.length := by
  rw [← h.functions, List.length_map]

theorem jobs_change (batch : Batch) (n : Nat) (move : Function → Job → Job) :
    (batch.change n move).jobs = batch.jobs.modify n fun e => (e.1, move e.1 e.2) := by
  rw [List.modify_eq_set_getElem?, change]
  cases batch.jobs[n]? <;> rfl

theorem interruption_change : (batch.change n move).interruption = batch.interruption := by
  unfold change
  split <;> rfl

/-- A job may make any of its moves. -/
theorem Valid.change (h : batch.Valid functions rule) (n : Nat)
    (hmove : ∀ f, Job.Move f rule batch.interruption (move f)) :
    (batch.change n move).Valid functions rule := by
  unfold Batch.change
  split
  · rename_i f job hn
    have hlt : n < batch.jobs.length := (List.getElem?_eq_some_iff.mp hn).1
    have hjob : job.Valid f rule batch.interruption := h.jobs _ (List.mem_of_getElem? hn)
    refine ⟨?_, fun e hmem => ?_, fun m e hm => ?_, fun m error hmem => ?_⟩
    · have hfst : (batch.jobs.map Prod.fst)[n]? = some f := by simp [hn]
      obtain ⟨hlt', heq⟩ := List.getElem?_eq_some_iff.mp hfst
      rw [List.map_set, ← heq, List.set_getElem_self hlt']
      exact h.functions
    · rcases List.mem_or_eq_of_mem_set hmem with hmem | rfl
      · exact h.jobs e hmem
      · exact (hmove f).valid job hjob
    · by_cases hne : m = n
      · subst hne
        obtain rfl : (f, move f job) = e := by simpa [hlt] using hm
        exact known_marks (h.known m _ hn) (hmove f)
      · rw [List.getElem?_set_ne (Ne.symm hne)] at hm
        exact known_marks_of_ne (h.known m e hm) hne
    · rw [List.length_set]
      rcases List.mem_append.mp hmem with hmem | hmem
      · exact h.bound m error hmem
      · obtain ⟨rfl, _⟩ := returned_mem_marks.mp hmem
        exact hlt
  · exact h

/-- An interruption may come at any time, with a mark of it or without one. -/
theorem Valid.interrupt (h : batch.Valid functions rule) (why : Interruption) {more : List Mark}
    (hmore : ∀ mark ∈ more, mark = .revoked) :
    { batch with
      interruption := batch.interruption <|> some why
      history := batch.history ++ more }.Valid functions rule where
  functions := h.functions
  jobs e hmem := (h.jobs e hmem).of_interruption fun why' hwhy => by simp [hwhy]
  known n e hn := by
    have hstarted : .started n ∉ more := fun hmem => nomatch hmore _ hmem
    have hreturned : ∀ error, .returned n error ∉ more := fun _ hmem => nomatch hmore _ hmem
    have hknown := h.known n e hn
    exact ⟨by simp [hstarted, hknown.started], fun error => by simp [hreturned, hknown.returned]⟩
  bound n error hmem := by
    rcases List.mem_append.mp hmem with hmem | hmem
    · exact h.bound n error hmem
    · cases hmore _ hmem

/-- Every action leaves the batch valid. -/
theorem Valid.act (h : batch.Valid functions rule) (a : Action) :
    (batch.act rule a).Valid functions rule := by
  cases a with
  | interrupt why =>
    have hinterrupt := h.interrupt why (List.forall_mem_nil (· = Mark.revoked))
    rw [List.append_nil] at hinterrupt
    exact hinterrupt
  | revoke => exact h.interrupt .canceled (List.forall_mem_singleton.mpr rfl)
  | start n => exact h.change n fun f => .start f rule _
  | look n => exact h.change n fun f => .look f rule _
  | work n => exact h.change n fun f => .work f rule _
  | finish n => exact h.change n fun f => .finish f rule _

theorem Valid.run (schedule : List Action) (h : batch.Valid functions rule) :
    (batch.run rule schedule).Valid functions rule := by
  induction schedule generalizing batch with
  | nil => exact h
  | cons a schedule ih => exact ih (h.act a)

theorem run_append (rule : Rule) (batch : Batch) (schedule rest : List Action) :
    batch.run rule (schedule ++ rest) = (batch.run rule schedule).run rule rest :=
  List.foldl_append

/-- The error of a job is the interruption. -/
theorem Valid.interruption_of_returned (h : batch.Valid functions rule)
    (hreturned : .returned n (some why) ∈ batch.history) : batch.interruption = some why := by
  obtain ⟨⟨f, job⟩, hn⟩ : ∃ e, batch.jobs[n]? = some e :=
    ⟨_, List.getElem?_eq_getElem (h.bound n _ hreturned)⟩
  have hjob := h.jobs _ (List.mem_of_getElem? hn)
  have hwhy := ((h.known n _ hn).returned _).mp hreturned
  cases job <;> simp_all [Job.returned?, Job.Valid]

/-- Jobs that have returned without an error have converted each function alone. -/
theorem Valid.products (h : batch.Valid functions rule)
    (hreturned : ∀ n < functions.length, .returned n none ∈ batch.history) :
    batch.products = functions.map fun f => (some (f.transform rule), f.trace rule) := by
  rw [Batch.products, ← h.functions, List.map_map]
  refine List.map_congr_left fun e hmem => ?_
  obtain ⟨n, hn⟩ := List.mem_iff_getElem?.mp hmem
  have hlt : n < functions.length := by
    rw [← h.length_jobs]
    exact (List.getElem?_eq_some_iff.mp hn).1
  have hdone := ((h.known n e hn).returned none).mp (hreturned n hlt)
  have hjob := h.jobs e hmem
  obtain ⟨f, job⟩ := e
  cases job <;> simp_all [Job.returned?, Job.Valid, Job.product]

/-! ## Interruptions -/

theorem history_act (rule : Rule) (batch : Batch) (a : Action) :
    ∃ more, (batch.act rule a).history = batch.history ++ more := by
  have hchange : ∀ n move, ∃ more, (batch.change n move).history = batch.history ++ more := by
    intro n move
    unfold change
    split
    · exact ⟨_, rfl⟩
    · exact ⟨[], by simp⟩
  cases a with
  | interrupt why => exact ⟨[], by simp [act]⟩
  | revoke => exact ⟨_, rfl⟩
  | start n | look n | work n | finish n => exact hchange n _

/-- In an orderly history the first interruption from outside counts: what the group revokes later
changes nothing, as a job has found an interruption before. -/
theorem interruption_run (functions : List Function) (rule : Rule) (schedule : List Action)
    (h : Mark.Orderly ((ofFunctions functions).run rule schedule).history) :
    ((ofFunctions functions).run rule schedule).interruption
      = schedule.findSome? Action.interruption? := by
  -- From the end of the schedule, where what the last action adds is the end of the history.
  induction schedule using List.reverseRecOn with
  | nil => rfl
  | append_singleton schedule a ih =>
    rw [run_append] at h ⊢
    have hvalid := (Valid.ofFunctions functions rule).run schedule
    generalize (ofFunctions functions).run rule schedule = batch at h ih hvalid ⊢
    change Mark.Orderly (batch.act rule a).history at h
    change (batch.act rule a).interruption = _
    obtain ⟨more, hmore⟩ := history_act rule batch a
    have hbefore := ih ((hmore ▸ h).of_append)
    rw [List.findSome?_append, ← hbefore]
    cases a with
    | interrupt why => simp [act, Action.interruption?]
    | revoke =>
      obtain ⟨_, hrevoked⟩ := Mark.orderly_concat_iff.mp h
      obtain ⟨mark, hmem, herror⟩ := hrevoked rfl
      cases mark with
      | returned n error =>
        obtain ⟨why, rfl⟩ := Option.ne_none_iff_exists'.mp herror
        simp [act, hvalid.interruption_of_returned hmem]
      | _ => exact absurd rfl herror
    | start n | look n | work n | finish n =>
      simp [act, interruption_change, Action.interruption?]

/-! ## Progress -/

/-- The first jobs of a batch have returned. -/
def Returned (k : Nat) (batch : Batch) : Prop :=
  ∀ n < k, ∀ e : Function × Job, batch.jobs[n]? = some e → e.2.returned? ≠ none

theorem Returned.change {k : Nat} (h : batch.Returned k) (move : Function → Job → Job) :
    (batch.change k move).Returned k := by
  intro n hn e he
  rw [jobs_change, List.getElem?_modify_ne _ _ (by omega)] at he
  exact h n hn e he

/-- A job that is given its turn returns. -/
theorem Returned.turn {k : Nat} (h : batch.Returned k) (rule : Rule) :
    (batch.run rule [.start k, .look k, .finish k]).Returned (k + 1) := by
  intro n hn e he
  by_cases hlt : n < k
  · exact ((h.change _).change _).change _ n hlt e he
  · obtain rfl : n = k := by omega
    change (((batch.change n _).change n _).change n _).jobs[n]? = some e at he
    simp only [jobs_change, List.getElem?_modify_eq, Option.map_eq_map, Option.map_map,
      Option.map_eq_some_iff] at he
    obtain ⟨⟨f, job⟩, _, rfl⟩ := he
    exact Job.returned?_turn rule f _ job

theorem run_inTurn_succ (rule : Rule) (batch : Batch) (k : Nat) :
    batch.run rule (Pool.inTurn (k + 1))
      = (batch.run rule (Pool.inTurn k)).run rule [.start k, .look k, .finish k] := by
  rw [← run_append, Pool.inTurn, List.range_succ, List.flatMap_append]
  rfl

theorem returned_inTurn (rule : Rule) (batch : Batch) (k : Nat) :
    (batch.run rule (Pool.inTurn k)).Returned k := by
  induction k with
  | zero => exact fun n hn => absurd hn (Nat.not_lt_zero n)
  | succ k ih =>
    rw [run_inTurn_succ]
    exact ih.turn rule

end Batch

namespace Pool

variable {limit : Option Nat} {jobs n : Nat} {history : List Mark} {pool : Pool} {job : Job}

theorem follow?_append (limit : Option Nat) (jobs : Nat) (pool : Pool) (history more : List Mark) :
    follow? limit jobs pool (history ++ more)
      = (follow? limit jobs pool history).bind (follow? limit jobs · more) :=
  List.foldlM_append

theorem hasPlace_of_returned (hlimit : limit ≠ some 0) (h : ∀ m < n, m ∈ pool.returned) :
    pool.hasPlace limit n := by
  have hcount : (List.range n).countP (· ∉ pool.returned) = 0 := by
    refine List.countP_eq_zero.mpr fun m hm => ?_
    simpa using h m (List.mem_range.mp hm)
  cases limit with
  | none => rfl
  | some k =>
    have hk : k ≠ 0 := fun hk => hlimit (congrArg some hk)
    simp only [hasPlace, Option.all_some, hcount, decide_eq_true_eq]
    omega

/-- A pool with a place for a job can follow every move of it. -/
theorem Valid.exists_follow?_marks {f : Function} {rule : Rule} {interruption : Option Interruption}
    {move : Job → Job} (h : pool.Valid history) (hknown : job.Known history n) (hn : n < jobs)
    (hplace : pool.hasPlace limit n) (hmove : Job.Move f rule interruption move) :
    ∃ pool', follow? limit jobs pool (Batch.marks n job (move job)) = some pool' := by
  have hstarted : n ∈ pool.started ↔ job ≠ .waiting :=
    (h.mem_started_iff n).trans hknown.started
  have hreturned : n ∈ pool.returned ↔ job.returned? ≠ none := by
    simp [h.returned n, hknown.returned, Option.ne_none_iff_exists']
  unfold Batch.marks
  by_cases hstart : job = .waiting ∧ move job ≠ .waiting
  · -- The job starts, and may return at once.
    obtain ⟨rfl, hmoved⟩ := hstart
    cases herror : (move .waiting).returned? <;>
      simp [follow?, accept?, hn, hplace, hstarted, hreturned, hmoved, Job.returned?]
  · cases hjob : job.returned? with
    | some error =>
      have hsame : move job = job := hmove.of_returned job (by simp [hjob])
      simp [follow?, hsame]
    | none =>
      cases herror : (move job).returned? with
      | none => simp [follow?, hstart]
      | some error =>
        have hwaiting : job ≠ .waiting := by
          rintro rfl
          refine hstart ⟨rfl, fun hmoved => ?_⟩
          simp [hmoved, Job.returned?] at herror
        simp [follow?, accept?, hstarted, hreturned, hwaiting, hjob]

end Pool

namespace Batch

variable {limit : Option Nat} {functions : List Function} {rule : Rule} {k : Nat} {batch : Batch}

/-- A pool has followed the batch, and the first jobs have returned. -/
structure Ready (limit : Option Nat) (functions : List Function) (rule : Rule) (k : Nat)
    (batch : Batch) : Prop where
  valid : batch.Valid functions rule
  followed : ∃ pool, Pool.follow? limit functions.length .empty batch.history = some pool
  returned : batch.Returned k

/-- The pool knows of the jobs that have returned. -/
theorem Ready.mem_returned (h : batch.Ready limit functions rule k) {pool : Pool}
    (hpool : pool.Valid batch.history) {n : Nat} (hn : n < k) (hlt : n < functions.length) :
    n ∈ pool.returned := by
  obtain ⟨e, he⟩ : ∃ e, batch.jobs[n]? = some e :=
    ⟨_, List.getElem?_eq_getElem (h.valid.length_jobs ▸ hlt)⟩
  obtain ⟨error, herror⟩ := Option.ne_none_iff_exists'.mp (h.returned n hn e he)
  exact (hpool.returned n).mpr ⟨error, ((h.valid.known n e he).returned error).mpr herror⟩

/-- The next job has a place, since no job before it needs one. -/
theorem Ready.change (h : batch.Ready limit functions rule k) (hlimit : limit ≠ some 0)
    {move : Function → Job → Job} (hmove : ∀ f, Job.Move f rule batch.interruption (move f)) :
    (batch.change k move).Ready limit functions rule k := by
  refine ⟨h.valid.change k hmove, ?_, h.returned.change move⟩
  obtain ⟨pool, hfollow⟩ := h.followed
  have hpool : pool.Valid batch.history := Pool.Valid.empty.follow hfollow
  unfold Batch.change
  split
  · rename_i f job hk
    have hlt : k < functions.length :=
      h.valid.length_jobs ▸ (List.getElem?_eq_some_iff.mp hk).1
    have hplace : pool.hasPlace limit k :=
      Pool.hasPlace_of_returned hlimit fun n hn => h.mem_returned hpool hn (hn.trans hlt)
    obtain ⟨pool', hpool'⟩ :=
      hpool.exists_follow?_marks (h.valid.known k _ hk) hlt hplace (hmove f)
    exact ⟨pool', by rw [Pool.follow?_append, hfollow]; exact hpool'⟩
  · exact ⟨pool, hfollow⟩

theorem Ready.turn (h : batch.Ready limit functions rule k) (hlimit : limit ≠ some 0) :
    (batch.run rule [.start k, .look k, .finish k]).Ready limit functions rule (k + 1) := by
  have hstart := h.change hlimit fun f => .start f rule _
  have hlook := hstart.change hlimit fun f => .look f rule _
  have hfinish := hlook.change hlimit fun f => .finish f rule _
  exact ⟨hfinish.valid, hfinish.followed, h.returned.turn rule⟩

/-- What a pool has followed can be continued until all jobs have returned. -/
theorem Ready.inTurn (h : batch.Ready limit functions rule 0) (hlimit : limit ≠ some 0) (k : Nat) :
    (batch.run rule (Pool.inTurn k)).Ready limit functions rule k := by
  induction k with
  | zero => exact h
  | succ k ih =>
    rw [run_inTurn_succ]
    exact ih.turn hlimit

end Batch

/-! ## Programs -/

theorem Config.limit_ne_some_zero (c : Config) : c.limit ≠ some 0 := by
  unfold Config.limit
  split
  · simp only [ne_eq, Option.some.injEq]
    omega
  · simp

namespace Program

variable {p : Program} {c : Config} {abi : Abi} {sink : TraceSink}

/-- The conversion of a program in order, one function after the other. -/
def convertInOrder (p : Program) (c : Config) (abi : Abi) (sink : TraceSink) : Conversion where
  result := p.transform c abi
  written :=
    if sink = .kept ∧ p.refusal? c = none then p.transformTrace ⟨c.bound, abi⟩ else ""

theorem malformed?_of_refusal? (h : p.refusal? c = none) : p.malformed? = none := by
  unfold refusal? at h
  split at h
  · cases h
  · exact Option.map_eq_none_iff.mp h

/-- The functions of a well-formed program, each converted alone, make up the converted program. -/
theorem ofList_transform (rule : Rule) (h : p.malformed? = none) :
    FinMap.ofList (p.names.zip (p.definitions.map fun f => some (f.transform rule)))
      = (p.mapTransform rule).functions := by
  have hdefined : ∀ e ∈ p.functions.entries, ∃ f, e.2 = some f := by
    intro e he
    have hget : p.functions.get? e.1 = some e.2 := FinMap.get?_eq_some_iff_mem.mpr he
    obtain ⟨f, hf, _⟩ := (malformed?_eq_none_iff.mp h).2 e.1 e.2 hget
    exact ⟨f, hf⟩
  have hzip : p.names.zip (p.definitions.map fun f => some (f.transform rule))
      = (p.mapTransform rule).functions.entries := by
    change p.names.zip _ = p.functions.entries.map fun e => (e.1, e.2.map (·.transform rule))
    unfold names definitions FinMap.keys FinMap.values
    generalize p.functions.entries = entries at hdefined
    induction entries with
    | nil => rfl
    | cons e entries ih =>
      obtain ⟨f, hf⟩ := hdefined e List.mem_cons_self
      have hrest := ih fun e' he' => hdefined e' (List.mem_cons_of_mem _ he')
      simpa [hf] using hrest
  rw [hzip, FinMap.ofList_entries]

/-- What jobs leave that have converted each function alone is the conversion in order. -/
theorem gather_eq_convertInOrder (hsink : sink ≠ .broken) (h : p.refusal? c = none) :
    p.gather sink
        (p.definitions.map fun f => (some (f.transform ⟨c.bound, abi⟩), f.trace ⟨c.bound, abi⟩))
      = p.convertInOrder c abi sink := by
  have hfunctions := ofList_transform ⟨c.bound, abi⟩ (malformed?_of_refusal? h)
  have hresult : p.transform c abi = .ok (p.mapTransform ⟨c.bound, abi⟩) := by
    simp [transform, h]
  have hprogram : { p with functions := (p.mapTransform ⟨c.bound, abi⟩).functions }
      = p.mapTransform ⟨c.bound, abi⟩ := rfl
  cases sink with
  | broken => exact absurd rfl hsink
  | none =>
    simp [gather, convertInOrder, hresult, List.map_map, Function.comp_def, hfunctions, hprogram]
  | kept =>
    simp [gather, convertInOrder, hresult, h, List.map_map, Function.comp_def, hfunctions, hprogram,
      transformTrace]

/-- Without a refusal, the answer of a lawful group says what has become of the jobs: there was no
error, and each of them has converted its function; or there was one, and it is the first
interruption from outside. -/
theorem products_or_interruption {group : Group} (hgroup : group.Lawful) (schedule : List Action)
    {answer : Option Interruption}
    (hallows : group.Allows c.limit p.definitions.length (p.batch c abi schedule).history answer) :
    (answer = none ∧ (p.batch c abi schedule).products
      = p.definitions.map fun f => (some (f.transform ⟨c.bound, abi⟩), f.trace ⟨c.bound, abi⟩)) ∨
    ∃ why, schedule.findSome? Action.interruption? = some why ∧ answer = some why := by
  have hvalid : (p.batch c abi schedule).Valid p.definitions ⟨c.bound, abi⟩ :=
    (Batch.Valid.ofFunctions p.definitions ⟨c.bound, abi⟩).run schedule
  cases answer with
  | none =>
    refine .inl ⟨rfl, hvalid.products fun n hn => ?_⟩
    obtain ⟨_, error, hreturned⟩ := hgroup.runs_once hallows n hn
    rwa [hgroup.answers_none hallows n error hreturned] at hreturned
  | some why =>
    refine .inr ⟨why, ?_, rfl⟩
    obtain ⟨mark, hmem, herror⟩ := List.exists_of_findSome?_eq_some (hgroup.answers_first hallows)
    cases mark with
    | returned n error =>
      obtain rfl : error = some why := herror
      rw [← hvalid.interruption_of_returned hmem]
      exact (Batch.interruption_run _ _ _ (hgroup.revokes_after hallows)).symm
    | _ => cases herror

/-- Whatever lawful group runs the jobs, and whatever the schedule, the conversion by jobs is the
conversion in order, with the same program or the same refusal and the same trace; or an accepted
program was not converted because of the first interruption from outside, and then there is neither
a program nor a trace.  Wherever a schedule stops, every job returns that is given its turn.  The
trace must go where it can be written. -/
theorem convertByJobs_cases (p : Program) (c : Config) (abi : Abi) (hsink : sink ≠ .broken)
    {group : Group} (hgroup : group.Lawful) (schedule : List Action) :
    (∀ answer, (p.refusal? c = none →
        group.Allows c.limit p.definitions.length (p.batch c abi schedule).history answer) →
      p.convertByJobs c abi sink schedule answer = p.convertInOrder c abi sink ∨
      p.refusal? c = none ∧ ∃ why, schedule.findSome? Action.interruption? = some why ∧
        p.convertByJobs c abi sink schedule answer = ⟨.error (.interrupted why), ""⟩) ∧
    ∀ e ∈ (p.batch c abi (schedule ++ Pool.inTurn p.definitions.length)).jobs,
      e.2.returned? ≠ none := by
  constructor
  · intro answer hallows
    cases hrefusal : p.refusal? c with
    | some e => exact .inl (by simp [convertByJobs, convertInOrder, transform, hrefusal])
    | none =>
      rcases products_or_interruption hgroup schedule (hallows hrefusal) with
        ⟨rfl, hproducts⟩ | ⟨why, hwhy, rfl⟩
      · refine .inl ?_
        simp only [convertByJobs, hrefusal, hproducts]
        exact gather_eq_convertInOrder hsink hrefusal
      · exact .inr ⟨rfl, why, hwhy, by simp [convertByJobs, hrefusal]⟩
  · intro e hmem
    obtain ⟨n, hn⟩ := List.mem_iff_getElem?.mp hmem
    have hvalid := (Batch.Valid.ofFunctions p.definitions ⟨c.bound, abi⟩).run
      (schedule ++ Pool.inTurn p.definitions.length)
    have hlt : n < p.definitions.length := by
      rw [← hvalid.length_jobs]
      exact (List.getElem?_eq_some_iff.mp hn).1
    rw [batch, Batch.run_append] at hn
    exact Batch.returned_inTurn _ _ _ n hlt e hn

/-- The standard settings, but for two jobs at a time. -/
def twoPlaces : Config := { Config.standard with workers := 2 }

/-- Two jobs work in turns, and the third one starts when one of them has returned. -/
def sideBySide : List Action :=
  [.start 1, .start 0, .look 0, .work 0, .look 1, .work 1, .work 0, .finish 1, .start 2, .work 0,
    .look 2, .finish 0, .work 2, .finish 2]

/-- The second and the third job find an interruption, the third one after the pool has revoked. -/
def cutShort : List Action :=
  [.start 0, .look 0, .start 1, .interrupt .canceled, .look 1, .interrupt .deadline, .finish 1,
    .revoke, .finish 0, .start 2, .look 2, .work 2]

/-- A pool follows the first schedule to what the conversion in order leads to, and the second one
to an error. -/
theorem convertByJobs_cases_relay :
    Pool.group.Allows twoPlaces.limit relay.definitions.length
        (relay.batch twoPlaces twoPlaces.abi sideBySide).history none ∧
      relay.convertByJobs twoPlaces twoPlaces.abi .kept sideBySide none
        = relay.convertInOrder twoPlaces twoPlaces.abi .kept ∧
    Pool.group.Allows Config.standard.limit relay.definitions.length
        (relay.batch .standard Config.standard.abi cutShort).history (some .canceled) ∧
      relay.convertByJobs .standard Config.standard.abi .kept cutShort (some .canceled)
        = ⟨.error (.interrupted .canceled), ""⟩ := by
  have hsink : TraceSink.kept ≠ .broken := by decide
  have hfollowed : Pool.group.Allows twoPlaces.limit relay.definitions.length
      (relay.batch twoPlaces twoPlaces.abi sideBySide).history none := by
    change Pool.answer? _ _ _ = _
    decide +kernel
  have hstopped : Pool.group.Allows Config.standard.limit relay.definitions.length
      (relay.batch .standard Config.standard.abi cutShort).history (some .canceled) := by
    change Pool.answer? _ _ _ = _
    decide +kernel
  refine ⟨hfollowed, ?_, hstopped, ?_⟩
  · obtain ⟨hcases, _⟩ :=
      convertByJobs_cases relay twoPlaces twoPlaces.abi hsink Pool.group_lawful sideBySide
    rcases hcases none fun _ => hfollowed with h | ⟨_, why, hwhy, _⟩
    · exact h
    · cases hwhy
  · obtain ⟨hcases, _⟩ :=
      convertByJobs_cases relay .standard Config.standard.abi hsink Pool.group_lawful cutShort
    rcases hcases (some .canceled) fun _ => hstopped with h | ⟨_, why, hwhy, h⟩
    · have hresult := congrArg Conversion.result h
      have haccepted : relay.refusal? .standard = none := by decide +kernel
      simp [convertByJobs, convertInOrder, transform_relay, haccepted] at hresult
    · cases hwhy
      exact h

/-- A schedule that a pool can follow can be continued, without an interruption, until the pool
answers. -/
theorem exists_transformPooled (p : Program) (c : Config) (abi : Abi) (sink : TraceSink)
    (schedule : List Action)
    (h : ∃ pool, Pool.follow? c.limit p.definitions.length .empty (p.batch c abi schedule).history
      = some pool) :
    ∃ r, p.transformPooled c abi sink (schedule ++ Pool.inTurn p.definitions.length) = some r := by
  have hvalid := (Batch.Valid.ofFunctions p.definitions ⟨c.bound, abi⟩).run schedule
  have hready : ((p.batch c abi schedule).run ⟨c.bound, abi⟩ (Pool.inTurn p.definitions.length)).Ready
      c.limit p.definitions ⟨c.bound, abi⟩ p.definitions.length :=
    Batch.Ready.inTurn ⟨hvalid, h, fun n hn => absurd hn (Nat.not_lt_zero n)⟩ c.limit_ne_some_zero _
  rw [batch, ← Batch.run_append] at hready
  obtain ⟨pool, hfollow⟩ := hready.followed
  have hpool : pool.Valid _ := Pool.Valid.empty.follow hfollow
  have hreturned : ∀ n < p.definitions.length, n ∈ pool.returned :=
    fun n hn => hready.mem_returned hpool hn hn
  have hanswer := Pool.answer?_eq_some_iff.mpr ⟨pool, hfollow, hreturned, rfl⟩
  unfold transformPooled
  split
  · exact ⟨_, rfl⟩
  · exact ⟨_, by rw [batch, hanswer]; rfl⟩

end Program

end RegisterTransfer
