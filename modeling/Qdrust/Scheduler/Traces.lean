import Qdrust.Scheduler.Lease

/-! The trace of a failure. It is written, and those of the task's other runs cleared,
before the run is finished; in between others cancel, recover, claim and delete. -/
namespace Qdrust.Scheduler
open Library Store

variable {Proc : Type}

/-- The newest failed run of a task that carries a trace, for the owner of the task. -/
def latestFailedRunTraceForOwner (db : Db) (taskId ownerId : Int) : Option Run :=
  if ((db.tasks.find taskId).bind TaskRow.ownerId) = some ownerId then
    (db.runs.rows.filter fun run => run.taskId == taskId && run.status == .failed && run.failureTrace.isSome).getLast?
  else none

/-- A step of the processes and of the API, or a deletion of runs: of one, of an owner's,
of old ones or of all. -/
inductive RunAction (Proc : Type) where
  | scheduler (action : Action Proc)
  | forget (chosen : Run → Bool)

def forgetRuns (db : Db) (chosen : Run → Bool) : Db := { db with runs := db.runs.delete chosen }

variable [DecidableEq Proc]

def stepForgetting (d : Deployment Proc) (s : System Proc) : RunAction Proc → Option (System Proc)
  | .scheduler action => step d s action
  | .forget chosen => some { s with db := forgetRuns s.db chosen }

/-- At most one run of a task carries a trace. Once it has ended it is a failed one, and the
last that failed. -/
structure TraceSound (db : Db) (taskId : Int) : Prop where
  sole : ∀ r ∈ db.runs.rows, ∀ r' ∈ db.runs.rows, r.taskId = taskId → r'.taskId = taskId →
    r.failureTrace.isSome = true → r'.failureTrace.isSome = true → r = r'
  settled : ∀ r ∈ db.runs.rows, r.taskId = taskId → r.failureTrace.isSome = true → r.status.terminal = true →
    r.status = .failed ∧ ∀ r' ∈ db.runs.rows, r'.taskId = taskId → r'.status = .failed → r'.id ≤ r.id
  latest : ∀ ownerId r, latestFailedRunTraceForOwner db taskId ownerId = some r →
    ∀ r' ∈ db.runs.rows, r'.taskId = taskId → r'.status = .failed → r'.id ≤ r.id

/-- A trace is written by the process that claimed the run last, while the run is held and
not to be cancelled; and until this process has finished it, the run is left alone. -/
structure Undisturbed (s : System Proc) (a : RunAction Proc) : Prop where
  trace : ∀ p run task outcome, a = .scheduler (.proceed p) → s.phase p = .trace run task outcome →
    ∀ r ∈ s.db.runs.rows, r.id = run.id →
      r.status.held = true ∧ r.cancelRequested = false ∧ holder s.history r.id = some p
  finish : ∀ p run task outcome, a = .scheduler (.proceed p) → s.phase p = .finish run task outcome →
    ∀ r ∈ s.db.runs.rows, r.id = run.id → r.failureTrace.isSome = true → r.status.held = true →
      holder s.history r.id = some p
  lease : ∀ p, a = .scheduler (.proceed p) → s.phase p = .recover ∨ s.phase p = .claim →
    ∀ r ∈ s.db.runs.rows, r.failureTrace.isSome = true → r.status.held = true →
      sqlLe r.leaseExpiresAt (timestamp s.clock) = false
  cancel : ∀ runId, a = .scheduler (.cancel runId) →
    ∀ r ∈ s.db.runs.rows, r.id = runId → r.failureTrace.isSome = true → r.status.active = false

/-- The process is about to finish a run as failed. -/
def Reporting (phase : Phase) : Prop := ∃ run task outcome, phase = .finish run task outcome ∧ outcome.error.isSome = true

/-- Phases know their run and their task, and the order of the runs of a task. -/
structure Ordered (s : System Proc) : Prop where
  bounded : ∀ q run, (s.phase q).run = some run → run.id ≤ s.db.runs.last
  run : ∀ q run, (s.phase q).run = some run → ∀ r ∈ s.db.runs.rows, r.id = run.id → r.taskId = run.taskId
  task : ∀ q run task, (s.phase q).run = some run → (s.phase q).task = some task → task.id = run.taskId
  failing : ∀ q run task outcome, s.phase q = .record run task outcome → outcome.cancelled = false
  tracing : ∀ q run task outcome, s.phase q = .trace run task outcome → outcome.error.isSome = true
  newest : ∀ r ∈ s.db.runs.rows, r.status.active = true → ∀ r' ∈ s.db.runs.rows, r'.taskId = r.taskId → r'.id ≤ r.id

variable {d : Deployment Proc} {s t : System Proc} {a : Action Proc}

omit [DecidableEq Proc] in
theorem ordered_init (tasks : Table TaskRow TaskRow.id) (clock : Int) : Ordered (System.init tasks clock : System Proc) := by
  constructor
  · rintro _ _ ⟨⟩
  · rintro _ _ ⟨⟩
  · rintro _ _ _ ⟨⟩
  · rintro _ _ _ _ ⟨⟩
  · rintro _ _ _ _ ⟨⟩
  · rintro _ ⟨⟩

omit [DecidableEq Proc] in
theorem ordered_forget (ordered : Ordered s) (chosen : Run → Bool) : Ordered { s with db := forgetRuns s.db chosen } where
  bounded := ordered.bounded
  run := fun q run holds r there => ordered.run q run holds r (List.mem_of_mem_filter there)
  task := ordered.task
  failing := ordered.failing
  tracing := ordered.tracing
  newest := fun r there active r' there' => ordered.newest r (List.mem_of_mem_filter there) active r' (List.mem_of_mem_filter there')

/-- From where a worker's own call gets to the phases that end an execution. -/
def Arrives (phase : Phase) : Phase → Prop
  | .record _ _ _ => False
  | .trace run task outcome => phase = .record run task outcome ∧ ∃ text steps, outcome = .err text steps
  | .finish run task outcome =>
    phase = .trace run task outcome ∨ phase = .record run task outcome ∧ outcome.error = none
  | _ => True

omit [DecidableEq Proc] in
theorem work_arrives (name : String) (p : Proc) (now : Int) (db : Db) (phase : Phase)
    (moves : ∀ run task, phase ≠ .execute run task) : Arrives phase (work name p now db phase).2.1 := by
  cases phase with
  | recover => exact trivial
  | claim =>
    simp only [work]
    split <;> exact trivial
  | start run =>
    simp only [work]
    split <;> exact trivial
  | load run =>
    simp only [work]
    split <;> exact trivial
  | execute run task => exact absurd rfl (moves run task)
  | record run task outcome =>
    cases outcome with
    | ok status log => exact .inr ⟨rfl,rfl⟩
    | err text steps => exact ⟨rfl,text,steps,rfl⟩
  | trace run task outcome => exact .inl rfl
  | finish run task outcome =>
    simp only [work,afterFinish]
    split
    · exact trivial
    · exact trivial
    · split
      · exact trivial
      · split <;> exact trivial
  | log run text => exact trivial
  | count run task =>
    simp only [work]
    split <;> exact trivial
  | schedule run task => exact trivial

/-- How a worker gets to record an outcome, to write a trace and to finish a run. -/
theorem step_arrives (taken : step d s a = some t) (q : Proc) : t.phase q = s.phase q ∨ t.phase q = .recover ∨
    a = .proceed q ∧ Arrives (s.phase q) (t.phase q) ∨
    ∃ run task outcome, a = .complete q outcome ∧ s.phase q = .execute run task ∧ t.phase q = completion run task outcome := by
  have moved := step_phase taken q
  generalize t.phase q = phase at moved
  cases moved with
  | stayed => exact .inl rfl
  | worked =>
    by_cases executing : ∃ run task, s.phase q = .execute run task
    · obtain ⟨run,task,executing⟩ := executing
      rw [executing]
      exact .inl rfl
    · push Not at executing
      exact .inr (.inr (.inl ⟨rfl,work_arrives _ _ _ _ _ executing⟩))
  | completed run task outcome executing => exact .inr (.inr (.inr ⟨run,task,outcome,rfl,executing,rfl⟩))
  | crashed => exact .inr (.inl rfl)

theorem completion_cases (run : Run) (task : Task) (outcome : Outcome) :
    outcome.cancelled = true ∧ completion run task outcome = .finish run task outcome ∨
      outcome.cancelled = false ∧ completion run task outcome = .record run task outcome := by
  unfold completion
  cases outcome.cancelled
  · exact .inr ⟨rfl,rfl⟩
  · exact .inl ⟨rfl,rfl⟩

theorem error_of_cancelled {outcome : Outcome} (cancelled : outcome.cancelled = true) : outcome.error = none := by
  cases outcome with
  | ok status log => rfl
  | err text steps => exact if_pos cancelled

theorem error_of_failing {text : String} {steps : List String} (failing : (Outcome.err text steps).cancelled = false) :
    (Outcome.err text steps).error.isSome = true := by
  simp [Outcome.error,failing]

/-- A row that is there comes from one that was, of the same task, or is new and pending. -/
theorem step_came (taken : step d s a = some t) {r' : Run} (after : r' ∈ t.db.runs.rows) :
    (∃ r ∈ s.db.runs.rows, r'.id = r.id ∧ Moves r r') ∨ NewRow d s a r' := by
  rcases step_origin taken after with ⟨r,before,same⟩ | new
  · exact .inl ⟨r,before,same,(step_lawful taken).evolves.related before after same⟩
  · exact .inr new

omit [DecidableEq Proc] in
theorem vacant_iff {db : Db} {taskId : Int} (vacant : db.hasActive taskId = false) {r : Run} (there : r ∈ db.runs.rows)
    (same : r.taskId = taskId) : r.status.active = false := by
  have none := List.any_eq_false.mp vacant r there
  simpa [same] using none

theorem ordered_step (ordered : Ordered s) (taken : step d s a = some t) : Ordered t := by
  have grows := (step_lawful taken).evolves.grows
  constructor
  · intro q run holds
    rcases step_run taken holds with old | ⟨row,_,_,best,rfl⟩
    · exact Int.le_trans (ordered.bounded q run old) grows
    · exact Int.le_trans (s.db.runs.bounded row (candidate_spec best).1) grows
  · intro q run holds r' after same
    rcases step_run taken holds with old | ⟨row,_,_,best,rfl⟩
    · rcases step_came taken after with ⟨r,before,keyed,moved⟩ | new
      · exact moved.taskId.trans (ordered.run q run old r before (keyed.symm.trans same))
      · have bound := ordered.bounded q run old
        have fresh := new.id
        omega
    · have there := (candidate_spec best).1
      have moved := (step_lawful taken).evolves.related there after same
      exact moved.taskId
  · intro q run task holds reads
    rcases step_task taken reads with old | ⟨run',rfl,loading,found⟩
    · rcases step_run taken holds with held | ⟨row,_,claiming,_,_⟩
      · exact ordered.task q run task held old
      · rw [claiming] at old
        cases old
    · rcases step_run taken holds with held | ⟨row,_,claiming,_,_⟩
      · rw [loading] at held
        cases held
        exact (get_snapshot found).1
      · rw [loading] at claiming
        cases claiming
  · intro q run task outcome recording
    rcases step_arrives taken q with same | same | ⟨-,arrives⟩ | ⟨run',task',outcome',-,-,same⟩
    · exact ordered.failing q run task outcome (same.symm.trans recording)
    · cases same.symm.trans recording
    · rw [recording] at arrives
      exact arrives.elim
    · rcases completion_cases run' task' outcome' with ⟨-,finish⟩ | ⟨failing,record⟩
      · cases (same.trans finish).symm.trans recording
      · cases (same.trans record).symm.trans recording
        exact failing
  · intro q run task outcome tracing
    rcases step_arrives taken q with same | same | ⟨-,arrives⟩ | ⟨run',task',outcome',-,-,same⟩
    · exact ordered.tracing q run task outcome (same.symm.trans tracing)
    · cases same.symm.trans tracing
    · rw [tracing] at arrives
      obtain ⟨recording,text,steps,rfl⟩ := arrives
      exact error_of_failing (ordered.failing q run task _ recording)
    · rcases completion_cases run' task' outcome' with ⟨-,finish⟩ | ⟨-,record⟩
      · cases (same.trans finish).symm.trans tracing
      · cases (same.trans record).symm.trans tracing
  · intro r' after active r₂' after₂ same
    rcases step_came taken after with ⟨r,before,keyed,moved⟩ | new
    · have alive := moved.active active
      rcases step_came taken after₂ with ⟨r₂,before₂,keyed₂,moved₂⟩ | new₂
      · rw [keyed,keyed₂]
        refine ordered.newest r before alive r₂ before₂ ?_
        rw [← moved.taskId,← moved₂.taskId,same]
      · have idle := vacant_iff new₂.vacant before (moved.taskId.symm.trans same.symm)
        rw [alive] at idle
        cases idle
    · rw [new.id]
      rcases step_came taken after₂ with ⟨r₂,before₂,keyed₂,-⟩ | new₂
      · have bound := s.db.runs.bounded r₂ before₂
        omega
      · exact Int.le_of_eq new₂.id

/-- The row of a run after a trace was written for one of its task. -/
def Run.traced (task run : Int) (trace : String) (r : Run) : Run :=
  { r with failureTrace := if r.taskId = task then if r.id = run then some trace else none else r.failureTrace }

theorem record_traced {db : Db} {taskId runId : Int} {trace : String} {r r' : Run} (before : r ∈ db.runs.rows)
    (after : r' ∈ (recordLatestFailedRunTrace db taskId runId trace).runs.rows) (same : r'.id = r.id) :
    r' = Run.traced taskId runId (Redact.redact trace) r := by
  obtain ⟨mid,there,keyed⟩ := origin_of_update after
  rw [row_of_update there after keyed,row_of_update before there (keyed.symm.trans same)]
  by_cases mine : r.taskId = taskId
  · by_cases named : r.id = runId <;> simp [Run.traced,mine,named]
  · simp [Run.traced,mine]

omit [DecidableEq Proc] in
theorem work_traced {name : String} {p : Proc} {now : Int} {db : Db} {phase : Phase} {r r' : Run}
    (before : r ∈ db.runs.rows) (after : r' ∈ (work name p now db phase).1.runs.rows) (same : r'.id = r.id) :
    r'.failureTrace = r.failureTrace ∨
      ∃ run task outcome trace, phase = .trace run task outcome ∧ r' = Run.traced task.id run.id trace r := by
  have unchanged : r' ∈ db.runs.rows → r'.failureTrace = r.failureTrace := fun member => by
    rw [db.runs.key_unique member before same]
  cases phase with
  | trace run task outcome =>
    exact .inr ⟨run,task,outcome,_,rfl,record_traced before after same⟩
  | recover =>
    left
    rw [row_of_update before after same]
    split <;> rfl
  | claim =>
    left
    rcases claimRun_cases db name 300 now with ⟨_,none⟩ | ⟨row,_,_,_,rows,_⟩
    · simp only [work,none] at after
      exact unchanged after
    · rw [rows r before r' (work_claim name p now db ▸ after) same]
      split <;> rfl
  | start run =>
    left
    rw [row_of_update before (work_start name p now db run ▸ after) same]
    split <;> rfl
  | load run =>
    left
    simp only [work] at after
    split at after <;> exact unchanged after
  | execute run task => exact .inl (unchanged after)
  | record run task outcome => exact .inl (unchanged after)
  | finish run task outcome =>
    left
    rw [row_of_update before after same]
    split <;> rfl
  | log run text =>
    left
    rw [row_of_update before after same]
    split <;> rfl
  | count run task =>
    left
    simp only [work] at after
    split at after <;> exact unchanged after
  | schedule run task =>
    left
    simp only [work,scheduleRetry] at after
    rcases insertPending_cases db task.id now (some (addI64 now (max (retryDelay task) 1)))
      (some (original run)) "retry" with ⟨_,none⟩ | ⟨_,_,rows,_⟩
    · rw [none] at after
      exact unchanged after
    · rcases (rows r').mp after with old | new
      · exact unchanged old
      · have bound := db.runs.bounded r before
        rw [new] at same
        simp only [pendingRun] at same
        omega

/-- Only a worker in the phase for it writes a trace, and then it clears those of the
other runs of the task. -/
theorem step_traced (taken : step d s a = some t) {r r' : Run} (before : r ∈ s.db.runs.rows) (after : r' ∈ t.db.runs.rows)
    (same : r'.id = r.id) : r'.failureTrace = r.failureTrace ∨
      ∃ p run task outcome trace, a = .proceed p ∧ s.phase p = .trace run task outcome ∧
        r' = Run.traced task.id run.id trace r := by
  cases step_row taken before after same with
  | kept => exact .inl rfl
  | worked p _ _ row =>
    cases taken
    rcases work_traced before after same with kept | ⟨run,task,outcome,trace,writing,written⟩
    · exact .inl kept
    · exact .inr ⟨p,run,task,outcome,trace,rfl,writing,written⟩
  | cancelled => exact .inl rfl
  | renewed => exact .inl rfl

/-- A run that carries a trace and has not ended is held by the process that wrote it, and
this process is about to finish it as failed, or has forgotten it. -/
structure Carried (s : System Proc) (r : Run) : Prop where
  held : r.status.held = true
  wanted : r.cancelRequested = false
  holder : ∃ p, holder s.history r.id = some p ∧
    ∀ run, (s.phase p).run = some run → run.id = r.id → Reporting (s.phase p)

/-- The traces of a system. -/
structure Traced (s : System Proc) : Prop where
  ordered : Ordered s
  sole : ∀ r ∈ s.db.runs.rows, ∀ r' ∈ s.db.runs.rows, r.taskId = r'.taskId →
    r.failureTrace.isSome = true → r'.failureTrace.isSome = true → r.id = r'.id
  carried : ∀ r ∈ s.db.runs.rows, r.failureTrace.isSome = true → r.status.active = true → Carried s r
  settled : ∀ r ∈ s.db.runs.rows, r.failureTrace.isSome = true → r.status.active = false →
    r.status = .failed ∧ ∀ r' ∈ s.db.runs.rows, r'.taskId = r.taskId → r'.status = .failed → r'.id ≤ r.id
  recorded : ∀ q run task outcome, s.phase q = .finish run task outcome → outcome.error.isSome = true →
    ∀ r ∈ s.db.runs.rows, r.id = run.id → r.status.active = true →
      ∀ r' ∈ s.db.runs.rows, r'.taskId = r.taskId → r'.failureTrace.isSome = true → r'.id = r.id

omit [DecidableEq Proc] in
theorem traced_init (tasks : Table TaskRow TaskRow.id) (clock : Int) : Traced (System.init tasks clock : System Proc) := by
  refine ⟨ordered_init tasks clock,?_,?_,?_,?_⟩
  · rintro _ ⟨⟩
  · rintro _ ⟨⟩
  · rintro _ ⟨⟩
  · rintro _ _ _ _ ⟨⟩

omit [DecidableEq Proc] in
theorem traced_forget (traced : Traced s) (chosen : Run → Bool) : Traced { s with db := forgetRuns s.db chosen } where
  ordered := ordered_forget traced.ordered chosen
  sole := fun r there r' there' =>
    traced.sole r (List.mem_of_mem_filter there) r' (List.mem_of_mem_filter there')
  carried := fun r there => by
    intro carries active
    obtain ⟨held,wanted,holder⟩ := traced.carried r (List.mem_of_mem_filter there) carries active
    exact ⟨held,wanted,holder⟩
  settled := fun r there carries ended => by
    obtain ⟨failed,last⟩ := traced.settled r (List.mem_of_mem_filter there) carries ended
    exact ⟨failed,fun r' there' => last r' (List.mem_of_mem_filter there')⟩
  recorded := fun q run task outcome finishing failing r there named active r' there' =>
    traced.recorded q run task outcome finishing failing r (List.mem_of_mem_filter there) named active r'
      (List.mem_of_mem_filter there')

section Step

omit [DecidableEq Proc] in
/-- Where a worker writes a trace, the run is the active one of its task. -/
theorem writing_active {p : Proc} {run : Run} {task : Task} {outcome : Outcome} (ordered : Ordered s)
    (undisturbed : Undisturbed s (.scheduler (.proceed p))) (writing : s.phase p = .trace run task outcome) {r : Run} (there : r ∈ s.db.runs.rows)
    (named : r.id = run.id) : r.status.active = true ∧ r.taskId = task.id := by
  obtain ⟨held,-,-⟩ := undisturbed.trace p run task outcome rfl writing r there named
  have holds : (s.phase p).run = some run := by rw [writing]; rfl
  have reads : (s.phase p).task = some task := by rw [writing]; rfl
  have mine := ordered.run p run holds r there named
  exact ⟨RunStatus.active_of_held held,mine.trans (ordered.task p run task holds reads).symm⟩

omit [DecidableEq Proc] in
/-- A run that carries a trace and has not ended is claimed by nobody. -/
theorem carried_unclaimed {r : Run} (undisturbed : Undisturbed s (.scheduler a)) (carried : Carried s r)
    (there : r ∈ s.db.runs.rows) (carries : r.failureTrace.isSome = true) {p : Proc} {row : Run} (claims : a = .proceed p)
    (claiming : s.phase p = .claim) (best : s.db.claimCandidate (timestamp s.clock) = some row) : row.id ≠ r.id := by
  intro same
  obtain ⟨member,claimable⟩ := candidate_spec best
  cases s.db.runs.key_unique member there same
  have live := undisturbed.lease p (congrArg RunAction.scheduler claims) (.inr claiming) r there carries carried.held
  have pending : r.status ≠ .pending := by
    intro status
    have held := carried.held
    rw [status] at held
    cases held
  simp [Run.claimable,Run.takeable,live,pending] at claimable

theorem carried_holder {r : Run} (undisturbed : Undisturbed s (.scheduler a)) (carried : Carried s r)
    (there : r ∈ s.db.runs.rows) (carries : r.failureTrace.isSome = true) (taken : step d s a = some t) :
    holder t.history r.id = holder s.history r.id := by
  rw [step_history taken]
  refine holder_append fun p claimed => ?_
  generalize named : r.id = run at claimed
  cases logged_cases claimed with
  | claimed q row claiming best => exact carried_unclaimed undisturbed carried there carries rfl claiming best named.symm

/-- A run that carries a trace and has not ended stays held, or the process that wrote the
trace finishes it as failed. -/
theorem carried_row {r r' : Run} (undisturbed : Undisturbed s (.scheduler a)) (carried : Carried s r)
    (taken : step d s a = some t) (before : r ∈ s.db.runs.rows) (after : r' ∈ t.db.runs.rows) (same : r'.id = r.id)
    (carries : r.failureTrace.isSome = true) :
    r'.status.held = true ∧ r'.cancelRequested = false ∨
      ∃ p run task outcome, a = .proceed p ∧ s.phase p = .finish run task outcome ∧ r.id = run.id ∧
        r'.status = .failed := by
  have held := carried.held
  have wanted := carried.wanted
  cases step_row taken before after same with
  | kept => exact .inl ⟨held,wanted⟩
  | worked p _ _ row =>
    generalize phase : s.phase p = current at row
    cases row with
    | kept => exact .inl ⟨held,wanted⟩
    | recovered _ _ expired =>
      have live := undisturbed.lease p rfl (.inl phase) r before carries held
      rw [live] at expired
      cases expired
    | claimed _ best => exact absurd rfl (carried_unclaimed undisturbed carried before carries rfl phase best)
    | started => exact .inl ⟨rfl,wanted⟩
    | finished run task outcome _ named =>
      have own := undisturbed.finish p run task outcome rfl phase r before named carries held
      obtain ⟨q,latest,reporting⟩ := carried.holder
      cases own.symm.trans latest
      obtain ⟨_,_,_,finishing,failing⟩ := reporting run (by rw [phase]; rfl) named.symm
      cases phase.symm.trans finishing
      exact .inr ⟨p,run,task,outcome,rfl,phase,named,by simp [Run.finished,wanted,failing]⟩
  | cancelled _ active =>
    rw [undisturbed.cancel r.id rfl r before rfl carries] at active
    cases active
  | renewed => exact .inl ⟨held,wanted⟩

/-- Only the step of a worker that writes a trace lets a run get one. -/
theorem step_carries (taken : step d s a = some t) {r r' : Run} (before : r ∈ s.db.runs.rows) (after : r' ∈ t.db.runs.rows)
    (same : r'.id = r.id) (carries : r'.failureTrace.isSome = true) : r.failureTrace.isSome = true ∨
      ∃ p run task outcome, a = .proceed p ∧ s.phase p = .trace run task outcome ∧ r.id = run.id ∧
        r.taskId = task.id ∧ r'.status = r.status ∧ r'.cancelRequested = r.cancelRequested := by
  rcases step_traced taken before after same with kept | ⟨p,run,task,outcome,trace,acts,writing,rfl⟩
  · exact .inl (kept ▸ carries)
  · by_cases mine : r.taskId = task.id
    · by_cases named : r.id = run.id
      · exact .inr ⟨p,run,task,outcome,acts,writing,named,mine,rfl,rfl⟩
      · simp [Run.traced,mine,named] at carries
    · exact .inl (by simpa [Run.traced,mine] using carries)

/-- No new run carries a trace. -/
theorem step_carrier (taken : step d s a = some t) {r' : Run} (after : r' ∈ t.db.runs.rows)
    (carries : r'.failureTrace.isSome = true) : ∃ r ∈ s.db.runs.rows, r'.id = r.id ∧ Moves r r' := by
  rcases step_came taken after with old | new
  · exact old
  · cases new <;> cases carries

theorem sole_step (traced : Traced s) (undisturbed : Undisturbed s (.scheduler a)) (taken : step d s a = some t) :
    ∀ r ∈ t.db.runs.rows, ∀ r' ∈ t.db.runs.rows, r.taskId = r'.taskId →
      r.failureTrace.isSome = true → r'.failureTrace.isSome = true → r.id = r'.id := by
  intro u there u' there' shared carries carries'
  obtain ⟨r,before,same,moved⟩ := step_carrier taken there carries
  obtain ⟨r',before',same',moved'⟩ := step_carrier taken there' carries'
  have tasks : r.taskId = r'.taskId := by rw [← moved.taskId,← moved'.taskId,shared]
  rw [same,same']
  by_cases writes : ∃ p run task outcome, a = .proceed p ∧ s.phase p = .trace run task outcome ∧ r.taskId = task.id
  · -- both are the run the trace was written for
    obtain ⟨p,run,task,outcome,rfl,writing,mine⟩ := writes
    have only : ∀ {w w' : Run}, w ∈ s.db.runs.rows → w' ∈ t.db.runs.rows → w'.id = w.id → w.taskId = task.id →
        w'.failureTrace.isSome = true → w.id = run.id := by
      intro w w' earlier later keyed own carried
      cases taken
      simp only [System.proceed,writing,work] at later
      rw [record_traced earlier later keyed] at carried
      by_contra other
      simp [Run.traced,own,other] at carried
    exact (only before there same mine carries).trans (only before' there' same' (tasks.symm.trans mine) carries').symm
  · push Not at writes
    have kept : ∀ {w w' : Run}, w ∈ s.db.runs.rows → w' ∈ t.db.runs.rows → w'.id = w.id → w.taskId = r.taskId →
        w'.failureTrace.isSome = true → w.failureTrace.isSome = true := by
      intro w w' earlier later keyed own carried
      rcases step_carries taken earlier later keyed carried with old | ⟨p,run,task,outcome,acts,writing,-,mine,-⟩
      · exact old
      · exact absurd (own.symm.trans mine) (writes p run task outcome acts writing)
    exact traced.sole r before r' before' tasks (kept before there same rfl carries)
      (kept before' there' same' tasks.symm carries')

/-- A run that gets a trace in a step, or keeps one, where another is active. -/
theorem traced_row (ordered : Ordered s) (undisturbed : Undisturbed s (.scheduler a)) (taken : step d s a = some t)
    {r u u' : Run} (before : r ∈ s.db.runs.rows) (active : r.status.active = true) (earlier : u ∈ s.db.runs.rows)
    (later : u' ∈ t.db.runs.rows) (keyed : u'.id = u.id) (shared : u.taskId = r.taskId)
    (carries : u'.failureTrace.isSome = true) : u.failureTrace.isSome = true ∨ u.id = r.id := by
  rcases step_carries taken earlier later keyed carries with old | ⟨p,run,task,outcome,rfl,writing,named,-⟩
  · exact .inl old
  · obtain ⟨alive,-⟩ := writing_active ordered undisturbed writing earlier named
    exact .inr (Int.le_antisymm (ordered.newest r before active u earlier shared) (ordered.newest u earlier alive r before shared.symm))

theorem record_step (traced : Traced s) (undisturbed : Undisturbed s (.scheduler a)) (taken : step d s a = some t) :
    ∀ q run task outcome, t.phase q = .finish run task outcome → outcome.error.isSome = true →
      ∀ r ∈ t.db.runs.rows, r.id = run.id → r.status.active = true →
        ∀ r' ∈ t.db.runs.rows, r'.taskId = r.taskId → r'.failureTrace.isSome = true → r'.id = r.id := by
  intro q run task outcome finishing failing r' after named active u' later shared carries
  have holds : (t.phase q).run = some run := by rw [finishing]; rfl
  obtain ⟨u,earlier,keyed,movedU⟩ := step_carrier taken later carries
  have origin : (s.phase q).run = some run → ∃ r ∈ s.db.runs.rows, r'.id = r.id ∧ Moves r r' := by
    intro held
    rcases step_came taken after with old | new
    · exact old
    · have bound := traced.ordered.bounded q run held
      have fresh := new.id
      omega
  rcases step_arrives taken q with stayed | away | ⟨rfl,arrives⟩ | ⟨run',task',outcome',-,-,completed⟩
  · rw [stayed] at finishing holds
    obtain ⟨r,before,same,moved⟩ := origin holds
    have alive := moved.active active
    have tasks : u.taskId = r.taskId := by rw [← movedU.taskId,← moved.taskId,shared]
    rw [keyed,same]
    rcases traced_row traced.ordered undisturbed taken before alive earlier later keyed tasks carries with old | mine
    · exact traced.recorded q run task outcome finishing failing r before (same.symm.trans named) alive u earlier tasks old
    · exact mine
  · cases away.symm.trans finishing
  · rw [finishing] at arrives
    rcases arrives with writing | ⟨-,none⟩
    · have reads : (s.phase q).run = some run := by rw [writing]; rfl
      obtain ⟨r,before,same,moved⟩ := origin reads
      obtain ⟨-,mine⟩ := writing_active traced.ordered undisturbed writing before (same.symm.trans named)
      have tasks : u.taskId = task.id := by rw [← movedU.taskId,shared,moved.taskId,mine]
      cases taken
      simp only [System.proceed,writing,work] at later
      rw [record_traced earlier later keyed] at carries
      rw [keyed,named]
      by_contra other
      simp [Run.traced,tasks,other] at carries
    · rw [none] at failing
      cases failing
  · rcases completion_cases run' task' outcome' with ⟨cancelled,finish⟩ | ⟨-,record⟩
    · cases (completed.trans finish).symm.trans finishing
      rw [error_of_cancelled cancelled] at failing
      cases failing
    · cases (completed.trans record).symm.trans finishing

omit [DecidableEq Proc] in
theorem finished_ended (httpStatus : Option Int) (error : Option String) (now : Int) (r : Run) :
    (r.finished httpStatus error now).status.active = false := by
  cases flag : r.cancelRequested <;> cases error <;> simp [Run.finished,RunStatus.active,flag]

theorem carried_step (traced : Traced s) (undisturbed : Undisturbed s (.scheduler a)) (taken : step d s a = some t) :
    ∀ r ∈ t.db.runs.rows, r.failureTrace.isSome = true → r.status.active = true → Carried t r := by
  intro r' after carries active
  obtain ⟨r,before,same,moved⟩ := step_carrier taken after carries
  have alive := moved.active active
  rcases step_carries taken before after same carries with old | ⟨p,run,task,outcome,rfl,writing,named,mine,status,wanted⟩
  · have carried := traced.carried r before old alive
    rcases carried_row undisturbed carried taken before after same old with ⟨held,wanted⟩ | ⟨p,run,task,outcome,rfl,finishing,named,failed⟩
    · refine ⟨held,wanted,?_⟩
      obtain ⟨p,latest,reporting⟩ := carried.holder
      rw [same,carried_holder undisturbed carried before old taken]
      refine ⟨p,latest,fun run holds own => ?_⟩
      rcases step_run taken holds with kept | ⟨row,claims,claiming,best,rfl⟩
      · have report := reporting run kept own
        rcases step_arrives taken p with stayed | away | ⟨rfl,arrives⟩ | ⟨run',task',outcome',-,executing,-⟩
        · rw [stayed]
          exact report
        · rw [away] at holds
          cases holds
        · -- the process that holds the run has finished it
          obtain ⟨_,task,outcome,finishing,-⟩ := report
          rw [finishing] at kept
          cases kept
          exfalso
          cases taken
          simp only [System.proceed,finishing,work,finishRun] at after
          rw [row_of_update before after same,if_pos (by simp [own,carried.held]),finished_ended] at active
          cases active
        · obtain ⟨_,_,_,finishing,-⟩ := report
          rw [executing] at finishing
          cases finishing
      · exact absurd own (carried_unclaimed undisturbed carried before old claims claiming best : row.id ≠ r.id)
    · rw [failed] at active
      cases active
  · obtain ⟨held,unasked,latest⟩ := undisturbed.trace p run task outcome rfl writing r before named
    refine ⟨status ▸ held,wanted.trans unasked,p,?_,fun _ _ _ => ?_⟩
    · rw [same]
      cases taken
      simpa only [System.proceed,writing,work,List.nil_append] using latest
    · have failing := traced.ordered.tracing p run task outcome writing
      cases taken
      refine ⟨run,task,outcome,?_,failing⟩
      simp [System.proceed,writing,work]

/-- An active run fails where a worker finishes it with an error. -/
theorem step_failed (taken : step d s a = some t) {r r' : Run} (before : r ∈ s.db.runs.rows) (after : r' ∈ t.db.runs.rows)
    (same : r'.id = r.id) (active : r.status.active = true) (failed : r'.status = .failed) :
    ∃ p run task outcome, a = .proceed p ∧ s.phase p = .finish run task outcome ∧ outcome.error.isSome = true ∧
      r.id = run.id := by
  have unfailed : r.status ≠ .failed := by
    intro status
    rw [status] at active
    cases active
  cases step_row taken before after same with
  | kept => exact absurd failed unfailed
  | worked p _ _ row =>
    generalize phase : s.phase p = current at row
    cases row with
    | kept => exact absurd failed unfailed
    | recovered =>
      simp only [Run.recovered] at failed
      split at failed <;> cases failed
    | claimed => cases failed
    | started => cases failed
    | finished run task outcome _ named =>
      refine ⟨p,run,task,outcome,rfl,phase,?_,named⟩
      simp only [Run.finished] at failed
      split at failed
      · cases failed
      · split at failed
        · assumption
        · cases failed
  | cancelled =>
    simp only [Run.cancelAsked] at failed
    split at failed
    · cases failed
    · exact absurd failed unfailed
  | renewed => exact absurd failed unfailed

theorem settled_step (traced : Traced s) (undisturbed : Undisturbed s (.scheduler a)) (taken : step d s a = some t) :
    ∀ r ∈ t.db.runs.rows, r.failureTrace.isSome = true → r.status.active = false →
      r.status = .failed ∧ ∀ r' ∈ t.db.runs.rows, r'.taskId = r.taskId → r'.status = .failed → r'.id ≤ r.id := by
  intro r' after carries ended
  obtain ⟨r,before,same,moved⟩ := step_carrier taken after carries
  have origin : ∀ u' ∈ t.db.runs.rows, u'.taskId = r'.taskId → u'.status = .failed →
      ∃ u ∈ s.db.runs.rows, u'.id = u.id ∧ u.taskId = r.taskId ∧ Moves u u' := by
    intro u' later shared failed
    rcases step_came taken later with ⟨u,earlier,keyed,movedU⟩ | new
    · exact ⟨u,earlier,keyed,by rw [← movedU.taskId,shared,moved.taskId],movedU⟩
    · rw [new.status] at failed
      cases failed
  rcases step_carries taken before after same carries with old | ⟨p,run,task,outcome,rfl,writing,named,-,status,-⟩
  · cases alive : r.status.active with
    | false =>
      obtain ⟨failed,last⟩ := traced.settled r before old alive
      refine ⟨(moved.terminal (by simp [RunStatus.terminal,alive])).trans failed,fun u' later shared fails => ?_⟩
      obtain ⟨u,earlier,keyed,tasks,movedU⟩ := origin u' later shared fails
      rw [keyed,same]
      cases active : u.status.active with
      | false =>
        have before := movedU.terminal (by simp [RunStatus.terminal,active])
        exact last u earlier tasks (before.symm.trans fails)
      | true =>
        -- the run that fails now is the only one that may carry a trace
        obtain ⟨p,run,task,outcome,-,finishing,failing,named⟩ := step_failed taken earlier later keyed active fails
        exact Int.le_of_eq (traced.recorded p run task outcome finishing failing u earlier named active r before tasks.symm old).symm
    | true =>
      have carried := traced.carried r before old alive
      rcases carried_row undisturbed carried taken before after same old with ⟨held,-⟩ | ⟨_,_,_,_,-,-,-,failed⟩
      · rw [RunStatus.active_of_held held] at ended
        cases ended
      · refine ⟨failed,fun u' later shared fails => ?_⟩
        obtain ⟨u,earlier,keyed,tasks,-⟩ := origin u' later shared fails
        rw [keyed,same]
        exact traced.ordered.newest r before alive u earlier tasks
  · obtain ⟨alive,-⟩ := writing_active traced.ordered undisturbed writing before named
    rw [status,alive] at ended
    cases ended

theorem traced_step (traced : Traced s) (undisturbed : Undisturbed s (.scheduler a)) (taken : step d s a = some t) : Traced t where
  ordered := ordered_step traced.ordered taken
  sole := sole_step traced undisturbed taken
  carried := carried_step traced undisturbed taken
  settled := settled_step traced undisturbed taken
  recorded := record_step traced undisturbed taken

end Step

omit [DecidableEq Proc] in
/-- What the invariant says of the trace that is read. -/
theorem traced_sound (traced : Traced s) (taskId : Int) : TraceSound s.db taskId := by
  have settled : ∀ r ∈ s.db.runs.rows, r.taskId = taskId → r.failureTrace.isSome = true → r.status.active = false →
      r.status = .failed ∧ ∀ r' ∈ s.db.runs.rows, r'.taskId = taskId → r'.status = .failed → r'.id ≤ r.id := by
    rintro r there rfl carries ended
    exact traced.settled r there carries ended
  constructor
  · intro r there r' there' mine mine' carries carries'
    exact s.db.runs.key_unique there there' (traced.sole r there r' there' (mine.trans mine'.symm) carries carries')
  · intro r there mine carries ended
    exact settled r there mine carries (by simpa [RunStatus.terminal] using ended)
  · intro ownerId r read
    rw [latestFailedRunTraceForOwner] at read
    split at read
    · have found := List.mem_filter.mp (List.mem_of_getLast? read)
      simp only [Bool.and_eq_true,beq_iff_eq] at found
      obtain ⟨there,⟨mine,failed⟩,carries⟩ := found
      exact (settled r there mine carries (by rw [failed]; rfl)).2
    · cases read

def failure : Outcome := .err "connection refused" []

/-- A run whose execution fails, up to the writing of its trace. -/
def traceWritten : List (RunAction Bool) :=
  [.scheduler (.enqueue 1),.scheduler (.proceed true),.scheduler (.proceed true),.scheduler (.proceed true),
    .scheduler (.proceed true),.scheduler (.complete true failure),.scheduler (.proceed true),.scheduler (.proceed true)]

end Qdrust.Scheduler
