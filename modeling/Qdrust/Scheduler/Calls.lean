import Qdrust.Scheduler.System

/-! What one call of a worker or of a tick loop can do: to the rows of the
`runs` table, to the caller's phase and to the history. -/
namespace Qdrust.Scheduler
open Library Store

variable {Proc : Type}

attribute [local simp] work

theorem row_of_update {db : Db} {chosen : Run → Bool} {set : Run → Run} {keeps : ∀ r, (set r).id = r.id}
    {r r' : Run} (before : r ∈ db.runs.rows) (after : r' ∈ (db.updateRuns chosen set keeps).runs.rows)
    (same : r'.id = r.id) : r' = if chosen r then set r else r := by
  obtain ⟨old,member,rfl⟩ := mem_updateRuns.mp after
  have keyed : (if chosen old then set old else old).id = old.id := by split <;> simp [keeps]
  rw [db.runs.key_unique member before (keyed.symm.trans same)]

theorem origin_of_update {db : Db} {chosen : Run → Bool} {set : Run → Run} {keeps : ∀ r, (set r).id = r.id}
    {r' : Run} (after : r' ∈ (db.updateRuns chosen set keeps).runs.rows) :
    ∃ r ∈ db.runs.rows, r'.id = r.id := by
  obtain ⟨old,member,rfl⟩ := mem_updateRuns.mp after
  exact ⟨old,member,by split <;> simp [keeps]⟩

theorem insertPending_cases (db : Db) (taskId now : Int) (runAfter retryOf : Option Int) (trigger : String) :
    (db.hasActive taskId = true ∧ insertPending db taskId now runAfter retryOf trigger = (db,none)) ∨
      db.hasActive taskId = false ∧
      (insertPending db taskId now runAfter retryOf trigger).1.tasks = db.tasks ∧
      (∀ r, r ∈ (insertPending db taskId now runAfter retryOf trigger).1.runs.rows ↔
        r ∈ db.runs.rows ∨ r = pendingRun taskId now runAfter retryOf trigger (db.runs.last + 1)) ∧
      (insertPending db taskId now runAfter retryOf trigger).2 =
        some (pendingRun taskId now runAfter retryOf trigger (db.runs.last + 1)) := by
  unfold insertPending
  cases vacant : db.hasActive taskId with
  | true => exact Or.inl ⟨rfl,rfl⟩
  | false =>
    refine Or.inr ⟨rfl,rfl,fun r => Table.mem_insert _ fun _ => rfl,?_⟩
    exact congrArg (Option.map runFields) (Table.find_insert db.runs fun _ => rfl)

theorem candidate_spec {db : Db} {now : Int} {row : Run} (best : db.claimCandidate now = some row) :
    row ∈ db.runs.rows ∧ row.claimable now = true :=
  List.mem_filter.mp (List.argmin_mem best)

/-- A claim leases the candidate, or there is none. -/
theorem claimRun_cases (db : Db) (worker : String) (leaseSeconds now : Int) :
    (db.claimCandidate now = none ∧ claimRun db worker leaseSeconds now = (db,none)) ∨
      ∃ row ∈ db.runs.rows, db.claimCandidate now = some row ∧ row.claimable now = true ∧
        (∀ r ∈ db.runs.rows, ∀ r' ∈ (claimRun db worker leaseSeconds now).1.runs.rows, r'.id = r.id →
          r' = if r.id = row.id then r.leasedBy worker (addI64 now (max leaseSeconds 1)) else r) ∧
        (claimRun db worker leaseSeconds now).2 =
          some (runFields (row.leasedBy worker (addI64 now (max leaseSeconds 1)))) := by
  unfold claimRun
  cases best : db.claimCandidate now with
  | none => exact Or.inl ⟨rfl,rfl⟩
  | some row =>
    obtain ⟨member,claimable⟩ := candidate_spec best
    have takeable : row.takeable now = true := by
      simp only [Run.claimable,Bool.and_eq_true] at claimable
      exact claimable.1
    refine Or.inr ⟨row,member,rfl,claimable,?_,?_⟩
    · intro r before r' after same
      rw [row_of_update before after same]
      by_cases here : r.id = row.id
      · have : r = row := db.runs.key_unique before member here
        simp [this,takeable]
      · simp [here]
    · have hit : db.runs.affected (fun run => run.id == row.id && run.takeable now) ≠ 0 := by
        rw [Table.affected,Ne,List.countP_eq_zero]
        intro none
        exact none row member (by simp [takeable])
      have there : row.leasedBy worker (addI64 now (max leaseSeconds 1)) ∈
          (db.updateRuns (fun run => run.id == row.id && run.takeable now)
            (Run.leasedBy worker (addI64 now (max leaseSeconds 1)))).runs.rows := by
        refine mem_updateRuns.mpr ⟨row,member,?_⟩
        simp [takeable]
      simp only [hit,if_false]
      exact congrArg (Option.map runFields) ((Table.find_eq_some _).mpr ⟨there,rfl⟩)

/-- What a call of a worker does to a row. -/
inductive WorkRow (name : String) (now : Int) (db : Db) : Phase → Run → Run → Prop where
  | kept (phase : Phase) (r : Run) (log trace : Option String) :
    WorkRow name now db phase r { r with log := log, failureTrace := trace }
  | recovered (r : Run) (held : r.status.held = true) (expired : sqlLe r.leaseExpiresAt now = true) :
    WorkRow name now db .recover r (r.recovered now)
  | claimed (r : Run) (best : db.claimCandidate now = some r) :
    WorkRow name now db .claim r (r.leasedBy name (addI64 now (max 300 1)))
  | started (run r : Run) (same : r.id = run.id) (leased : r.status = .leased)
    (own : r.leaseOwner = some name) (wanted : r.cancelRequested = false) :
    WorkRow name now db (.start run) r (r.started now)
  | finished (run : Run) (task : Task) (outcome : Outcome) (r : Run) (same : r.id = run.id)
    (held : r.status.held = true) :
    WorkRow name now db (.finish run task outcome) r (r.finished outcome.httpStatus outcome.error now)

theorem WorkRow.same {name : String} {now : Int} {db : Db} (phase : Phase) (r : Run) :
    WorkRow name now db phase r r := WorkRow.kept phase r r.log r.failureTrace

theorem work_claim (name : String) (p : Proc) (now : Int) (db : Db) :
    (work name p now db .claim).1 = (claimRun db name 300 now).1 := by
  simp only [work]
  split <;> simp_all

theorem work_start (name : String) (p : Proc) (now : Int) (db : Db) (run : Run) :
    (work name p now db (.start run)).1 = (startLeasedRun db run.id name now).1 := by
  simp only [work]
  split <;> simp_all

theorem work_row {name : String} {p : Proc} {now : Int} {db : Db} {phase : Phase} {r r' : Run}
    (before : r ∈ db.runs.rows) (after : r' ∈ (work name p now db phase).1.runs.rows)
    (same : r'.id = r.id) : WorkRow name now db phase r r' := by
  have unchanged : r' ∈ db.runs.rows → WorkRow name now db phase r r' := fun member => by
    rw [db.runs.key_unique member before same]
    exact .same phase r
  cases phase with
  | recover =>
    rw [row_of_update before after same]
    split
    next picked =>
      simp only [Bool.and_eq_true] at picked
      exact .recovered r picked.1 picked.2
    next => exact .same _ r
  | claim =>
    rcases claimRun_cases db name 300 now with ⟨_,none⟩ | ⟨row,member,best,_,rows,found⟩
    · simp only [work,none] at after
      exact unchanged after
    · rw [rows r before r' (work_claim name p now db ▸ after) same]
      split
      next here =>
        rw [db.runs.key_unique before member here]
        exact .claimed row best
      next => exact .same _ r
  | start run =>
    rw [row_of_update before (work_start name p now db run ▸ after) same]
    split
    next picked =>
      simp only [Bool.and_eq_true,beq_iff_eq,Bool.not_eq_true'] at picked
      exact .started run r picked.1.1.1 picked.1.1.2 picked.1.2 picked.2
    next => exact .same _ r
  | load run =>
    simp only [work] at after
    split at after <;> exact unchanged after
  | execute run task => exact unchanged after
  | record run task outcome => exact unchanged after
  | trace run task outcome =>
    obtain ⟨mid,there,keyed⟩ := origin_of_update after
    rw [row_of_update there after keyed,row_of_update before there (keyed.symm.trans same)]
    split <;> split
    · exact .kept _ r r.log _
    · exact .kept _ r r.log _
    · exact .kept _ r r.log _
    · exact .same _ r
  | finish run task outcome =>
    rw [row_of_update before after same]
    split
    next picked =>
      simp only [Bool.and_eq_true,beq_iff_eq] at picked
      exact .finished run task outcome r picked.1 picked.2
    next => exact .same _ r
  | log run text =>
    rw [row_of_update before after same]
    split
    · exact .kept _ r _ r.failureTrace
    · exact .same _ r
  | count run task =>
    simp only [work] at after
    split at after <;> exact unchanged after
  | schedule run task =>
    simp only [work,scheduleRetry] at after
    rcases insertPending_cases db task.id now (some (addI64 now (max (retryDelay task) 1)))
      (some (original run)) "retry" with ⟨_,none⟩ | ⟨_,_,rows,_⟩
    · rw [none] at after
      exact unchanged after
    · rcases (rows r').mp after with old | new
      · exact unchanged old
      · have bound := db.runs.bounded r before
        rw [new] at same
        simp only [pendingRun] at same
        omega

theorem insertPending_lawful_fst {db next : Db} {run : Option Run} {taskId now : Int}
    {runAfter retryOf : Option Int} {trigger : String}
    (inserted : insertPending db taskId now runAfter retryOf trigger = (next,run)) : Lawful db next := by
  have lawful := insertPending_lawful db taskId now runAfter retryOf trigger
  rwa [inserted] at lawful

theorem work_lawful (name : String) (p : Proc) (now : Int) (db : Db) (phase : Phase) :
    Lawful db (work name p now db phase).1 := by
  cases phase with
  | recover => exact recoverExpiredRuns_lawful db now
  | claim =>
    rw [work_claim]
    exact claimRun_lawful ..
  | start run =>
    rw [work_start]
    exact startLeasedRun_lawful ..
  | load run =>
    simp only [work]
    split <;> exact Lawful.refl db
  | execute run task => exact Lawful.refl db
  | record run task outcome => exact recordRun_lawful ..
  | trace run task outcome => exact recordLatestFailedRunTrace_lawful ..
  | finish run task outcome => exact finishRun_lawful ..
  | log run text => exact recordRunLog_lawful ..
  | count run task =>
    simp only [work]
    split <;> exact Lawful.refl db
  | schedule run task => exact insertPending_lawful ..

/-- A worker inserts a row only when it schedules a retry. -/
theorem work_origin {name : String} {p : Proc} {now : Int} {db : Db} {phase : Phase} {r' : Run}
    (after : r' ∈ (work name p now db phase).1.runs.rows) :
    (∃ r ∈ db.runs.rows, r'.id = r.id) ∨
      ∃ run task runAfter, phase = .schedule run task ∧ db.hasActive task.id = false ∧
        r' = pendingRun task.id now runAfter (some (original run)) "retry" (db.runs.last + 1) := by
  cases phase with
  | recover => exact Or.inl (origin_of_update after)
  | claim =>
    rw [work_claim] at after
    unfold claimRun at after
    split at after
    · exact Or.inl ⟨r',after,rfl⟩
    · exact Or.inl (origin_of_update after)
  | start run =>
    rw [work_start] at after
    exact Or.inl (origin_of_update after)
  | load run =>
    simp only [work] at after
    split at after <;> exact Or.inl ⟨r',after,rfl⟩
  | execute run task => exact Or.inl ⟨r',after,rfl⟩
  | record run task outcome => exact Or.inl ⟨r',after,rfl⟩
  | trace run task outcome =>
    obtain ⟨mid,there,keyed⟩ := origin_of_update after
    obtain ⟨r,member,same⟩ := origin_of_update there
    exact Or.inl ⟨r,member,keyed.trans same⟩
  | finish run task outcome => exact Or.inl (origin_of_update after)
  | log run text => exact Or.inl (origin_of_update after)
  | count run task =>
    simp only [work] at after
    split at after <;> exact Or.inl ⟨r',after,rfl⟩
  | schedule run task =>
    simp only [work,scheduleRetry] at after
    rcases insertPending_cases db task.id now (some (addI64 now (max (retryDelay task) 1)))
      (some (original run)) "retry" with ⟨_,none⟩ | ⟨vacant,_,rows,_⟩
    · rw [none] at after
      exact Or.inl ⟨r',after,rfl⟩
    · rcases (rows r').mp after with old | new
      · exact Or.inl ⟨r',old,rfl⟩
      · exact Or.inr ⟨run,task,_,rfl,vacant,new⟩

theorem work_claim_found {name : String} {p : Proc} {now : Int} {db : Db} {row : Run}
    (best : db.claimCandidate now = some row) :
    work name p now db .claim = ((claimRun db name 300 now).1,
      .start (runFields (row.leasedBy name (addI64 now (max 300 1)))),[.claimed p row.id]) := by
  rcases claimRun_cases db name 300 now with ⟨none,_⟩ | ⟨row',_,best',_,_,found⟩
  · rw [best] at none
    cases none
  · cases best.symm.trans best'
    simp only [work]
    split
    next next run same =>
      rw [same] at found ⊢
      cases found
      rfl
    next next same =>
      rw [same] at found
      cases found

theorem work_claim_none {name : String} {p : Proc} {now : Int} {db : Db}
    (none : db.claimCandidate now = none) : work name p now db .claim = (db,.recover,[]) := by
  simp [work,claimRun,none]

theorem work_schedule (name : String) (p : Proc) (now : Int) (db : Db) (run : Run) (task : Task) :
    (work name p now db (.schedule run task)).2.2 =
      if db.hasActive task.id then [] else [.retried (db.runs.last + 1) run.id] := by
  simp only [work,scheduleRetry]
  rcases insertPending_cases db task.id now (some (addI64 now (max (retryDelay task) 1)))
    (some (original run)) "retry" with ⟨active,none⟩ | ⟨vacant,_,_,found⟩
  · simp [active,none]
  · simp [vacant,found,pendingRun]

theorem insertPending_tasks (db : Db) (taskId now : Int) (runAfter retryOf : Option Int) (trigger : String) :
    (insertPending db taskId now runAfter retryOf trigger).1.tasks = db.tasks := by
  unfold insertPending
  split <;> rfl

/-- A worker changes the task rows only when it records a run. -/
theorem work_tasks {name : String} {p : Proc} {now : Int} {db : Db} {phase : Phase}
    (quiet : ∀ run task outcome, phase ≠ .record run task outcome) :
    (work name p now db phase).1.tasks = db.tasks := by
  cases phase with
  | claim =>
    rw [work_claim]
    unfold claimRun
    split <;> rfl
  | start run => rw [work_start]; rfl
  | load run => simp only [work]; split <;> rfl
  | count run task => simp only [work]; split <;> rfl
  | schedule run task => exact insertPending_tasks ..
  | record run task outcome => exact absurd rfl (quiet run task outcome)
  | recover => rfl
  | execute run task => rfl
  | trace run task outcome => rfl
  | finish run task outcome => rfl
  | log run text => rfl

/-- The insert of a tick, with or without a delay. -/
theorem tickOn_enqueue (d : Deployment Proc) (now again : Int) (draw : Nat) (db : Db) (task : Task)
    (occurrence : Int) (rest : List Task) : ∃ runAfter,
    d.tickOn now again draw db (.enqueue task occurrence rest) =
      ((insertPending db task.id (timestamp now) runAfter none "scheduled").1,.check rest,
        (insertPending db task.id (timestamp now) runAfter none "scheduled").2.toList.map
          fun run => .fired task.id occurrence run.id) := by
  simp only [Deployment.tickOn]
  split
  · exact ⟨_,rfl⟩
  · exact ⟨none,rfl⟩

/-- A tick writes only when it enqueues. -/
theorem tickOn_quiet (d : Deployment Proc) (now again : Int) (draw : Nat) (db : Db) {ticker : Ticker}
    (quiet : ∀ task occurrence rest, ticker ≠ .enqueue task occurrence rest) :
    (d.tickOn now again draw db ticker).1 = db ∧ (d.tickOn now again draw db ticker).2.2 = [] := by
  cases ticker with
  | list => exact ⟨rfl,rfl⟩
  | check tasks =>
    cases tasks with
    | nil => exact ⟨rfl,rfl⟩
    | cons task rest =>
      simp only [Deployment.tickOn]
      split
      · split <;> exact ⟨rfl,rfl⟩
      · exact ⟨rfl,rfl⟩
  | enqueue task occurrence rest => exact absurd rfl (quiet task occurrence rest)

theorem tickOn_events (d : Deployment Proc) (now again : Int) (draw : Nat) (db : Db) (task : Task)
    (occurrence : Int) (rest : List Task) :
    (d.tickOn now again draw db (.enqueue task occurrence rest)).2.2 =
      if db.hasActive task.id then [] else [.fired task.id occurrence (db.runs.last + 1)] := by
  obtain ⟨runAfter,fired⟩ := tickOn_enqueue d now again draw db task occurrence rest
  rw [fired]
  rcases insertPending_cases db task.id (timestamp now) runAfter none "scheduled" with
    ⟨active,none⟩ | ⟨vacant,_,_,found⟩
  · simp [active,none]
  · simp [vacant,found,pendingRun]

theorem tickOn_lawful (d : Deployment Proc) (now again : Int) (draw : Nat) (db : Db) (ticker : Ticker) :
    Lawful db (d.tickOn now again draw db ticker).1 := by
  by_cases quiet : ∀ task occurrence rest, ticker ≠ .enqueue task occurrence rest
  · rw [(tickOn_quiet d now again draw db quiet).1]
    exact Lawful.refl db
  · push Not at quiet
    obtain ⟨task,occurrence,rest,rfl⟩ := quiet
    obtain ⟨runAfter,same⟩ := tickOn_enqueue d now again draw db task occurrence rest
    rw [same]
    exact insertPending_lawful ..

/-- A tick works off the tasks it has listed. -/
theorem tickOn_tasks {d : Deployment Proc} {now again : Int} {draw : Nat} {db : Db} {ticker : Ticker}
    {task : Task} (member : task ∈ (d.tickOn now again draw db ticker).2.1.tasks) :
    task ∈ ticker.tasks ∨ task ∈ db.list := by
  cases ticker with
  | list => exact Or.inr member
  | check tasks =>
    cases tasks with
    | nil => cases member
    | cons first rest =>
      simp only [Deployment.tickOn] at member
      split at member
      · split at member
        · exact Or.inl member
        · exact Or.inl (List.mem_cons_of_mem first member)
      · exact Or.inl (List.mem_cons_of_mem first member)
  | enqueue first occurrence rest =>
    obtain ⟨runAfter,fired⟩ := tickOn_enqueue d now again draw db first occurrence rest
    rw [fired] at member
    exact Or.inl (List.mem_cons_of_mem first member)

/-- A tick enqueues a task after it has found it due. -/
theorem tickOn_to_enqueue {d : Deployment Proc} {now again : Int} {draw : Nat} {db : Db} {ticker : Ticker}
    {task : Task} {occurrence : Int} {rest : List Task}
    (next : (d.tickOn now again draw db ticker).2.1 = .enqueue task occurrence rest) :
    upcoming d.cron task d.interval d.defaultTz again = some occurrence ∧
      due d.cron task d.interval d.defaultTz now again = true := by
  cases ticker with
  | list => cases next
  | check tasks =>
    cases tasks with
    | nil => cases next
    | cons first others =>
      simp only [Deployment.tickOn] at next
      split at next
      next o found =>
        split at next
        next fires =>
          cases next
          exact ⟨found,fires⟩
        next => cases next
      next => cases next
  | enqueue first o others =>
    obtain ⟨runAfter,fired⟩ := tickOn_enqueue d now again draw db first o others
    rw [fired] at next
    cases next

/-- A worker gets a run by a claim and keeps it until it leaves it. -/
theorem work_run {name : String} {p : Proc} {now : Int} {db : Db} {phase : Phase} {run : Run}
    (holds : (work name p now db phase).2.1.run = some run) :
    phase.run = some run ∨ ∃ row, phase = .claim ∧ db.claimCandidate now = some row ∧
      run = runFields (row.leasedBy name (addI64 now (max 300 1))) := by
  cases phase with
  | claim =>
    cases best : db.claimCandidate now with
    | none =>
      rw [work_claim_none best] at holds
      cases holds
    | some row =>
      rw [work_claim_found best] at holds
      exact Or.inr ⟨row,rfl,rfl,(Option.some.inj holds).symm⟩
  | recover => cases holds
  | start run => simp only [work] at holds; split at holds <;> simp_all [Phase.run]
  | load run => simp only [work] at holds; split at holds <;> simp_all [Phase.run]
  | execute run task => exact Or.inl holds
  | record run task outcome => cases outcome <;> exact Or.inl holds
  | trace run task outcome => exact Or.inl holds
  | finish run task outcome =>
    simp only [work,afterFinish] at holds
    split at holds
    · exact Or.inl holds
    · cases holds
    · split at holds
      · cases holds
      · split at holds
        · exact Or.inl holds
        · cases holds
  | log run text => cases holds
  | count run task => simp only [work] at holds; split at holds <;> simp_all [Phase.run]
  | schedule run task => cases holds

/-- The task a worker has read is the one its run names. -/
theorem work_task {name : String} {p : Proc} {now : Int} {db : Db} {phase : Phase} {task : Task}
    (reads : (work name p now db phase).2.1.task = some task) :
    phase.task = some task ∨ ∃ run, phase = .load run ∧ db.get run.taskId = some task := by
  cases phase with
  | claim =>
    simp only [work] at reads
    split at reads <;> cases reads
  | recover => cases reads
  | start run => simp only [work] at reads; split at reads <;> cases reads
  | load run =>
    simp only [work] at reads
    split at reads
    next task' found =>
      cases reads
      exact Or.inr ⟨run,rfl,found⟩
    next => cases reads
  | execute run task => exact Or.inl reads
  | record run task outcome => cases outcome <;> exact Or.inl reads
  | trace run task outcome => exact Or.inl reads
  | finish run task outcome =>
    simp only [work,afterFinish] at reads
    split at reads
    · cases reads
    · cases reads
    · split at reads
      · cases reads
      · split at reads
        · exact Or.inl reads
        · cases reads
  | log run text => cases reads
  | count run task => simp only [work] at reads; split at reads <;> simp_all [Phase.task]
  | schedule run task => cases reads

end Qdrust.Scheduler
