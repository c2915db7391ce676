import Mathlib.Data.List.MinMax
import Mathlib.Data.Prod.Lex
import Mathlib.Order.Lattice.Nat
import Qdrust.Redact
import Qdrust.Store.Model

/-! The statements of the store that write the `runs` table, each one atomic,
and the statement that records a finished run on its task. `now` is the clock
reading in seconds that the call binds. -/
namespace Qdrust.Store
open Library

/-- The run fields every ordinary read selects; the trace is not among them. -/
def runFields (run : Run) : Run := { run with failureTrace := none }

def Db.getRun (db : Db) (id : Int) : Option Run := (db.runs.find id).map runFields

def Db.get (db : Db) (id : Int) : Option Task := (db.tasks.find id).map taskFromRow

/-- All tasks, in the order of their ids. -/
def Db.list (db : Db) : List Task := db.tasks.rows.map taskFromRow

def Db.updateRuns (db : Db) (chosen : Run → Bool) (set : Run → Run)
    (keeps : ∀ r, (set r).id = r.id := by intro r; rfl) : Db :=
  { db with runs := db.runs.update chosen set keeps }

/-- The guard of every insert: the task has no pending, leased or running run. -/
def Db.hasActive (db : Db) (taskId : Int) : Bool :=
  db.runs.rows.any fun run => run.taskId == taskId && run.status.active

/-- The row an insert names its columns of; the others take their defaults. -/
def pendingRun (taskId now : Int) (runAfter retryOf : Option Int) (trigger : String) (id : Int) : Run where
  id := id
  taskId := taskId
  status := .pending
  httpStatus := none
  error := none
  log := none
  failureTrace := none
  startedAt := none
  finishedAt := none
  createdAt := now
  leaseOwner := none
  leaseExpiresAt := none
  attempt := 0
  cancelRequested := false
  runAfter := runAfter
  retryOf := retryOf
  trigger := trigger

/-- `INSERT INTO runs .. SELECT .. WHERE NOT EXISTS (an active run of the task)`. -/
def insertPending (db : Db) (taskId now : Int) (runAfter retryOf : Option Int) (trigger : String) :
    Db × Option Run :=
  if db.hasActive taskId then (db,none) else
    let next : Db := { db with
      runs := db.runs.insert (pendingRun taskId now runAfter retryOf trigger) fun _ => rfl }
    (next,next.getRun (db.runs.last + 1))

def enqueueRunWithTrigger (db : Db) (taskId : Int) (trigger : String) (now : Int) : Db × Option Run :=
  insertPending db taskId now none none trigger

/-- The run an API caller asks for. -/
def enqueueRun (db : Db) (taskId now : Int) : Db × Option Run :=
  enqueueRunWithTrigger db taskId "manual" now

def enqueueDelayedRun (db : Db) (taskId delaySeconds now : Int) : Db × Option Run :=
  insertPending db taskId now (some (addI64 now (max delaySeconds 0))) none "scheduled"

def scheduleRetry (db : Db) (taskId retryOf delaySeconds now : Int) : Db × Option Run :=
  insertPending db taskId now (some (addI64 now (max delaySeconds 1))) (some retryOf) "retry"

/-- The number of runs whose `retry_of` points at the original run. -/
def countRetries (db : Db) (originalRunId : Int) : Int :=
  db.runs.rows.countP fun run => run.retryOf == some originalRunId

/-- What the update of a claim demands of the row. -/
def Run.takeable (now : Int) (run : Run) : Bool :=
  !run.cancelRequested &&
    (run.status == .pending || run.status.held && sqlLe run.leaseExpiresAt now)

/-- What the select of a claim demands of the row. -/
def Run.claimable (now : Int) (run : Run) : Bool :=
  run.takeable now && (run.runAfter.isNone || sqlLe run.runAfter now)

abbrev ClaimKey := Int ×ₗ Int ×ₗ Int

/-- Lexicographic over the computable order of the integers. -/
instance ClaimKey.order : LinearOrder ClaimKey :=
  @Prod.Lex.instLinearOrder Int (Int ×ₗ Int) Int.instLinearOrder
    (@Prod.Lex.instLinearOrder Int Int Int.instLinearOrder Int.instLinearOrder)

instance ClaimKey.preorder : Preorder ClaimKey := ClaimKey.order.toPreorder

instance ClaimKey.decidableLt : DecidableLT ClaimKey := ClaimKey.order.toDecidableLT

/-- `COALESCE(t.priority,0) DESC, r.created_at, r.id`. -/
def Db.claimOrder (db : Db) (run : Run) : ClaimKey :=
  toLex (-((db.tasks.find run.taskId).map (·.priority)).getD 0,toLex (run.createdAt,run.id))

def Db.claimCandidate (db : Db) (now : Int) : Option Run :=
  (db.runs.rows.filter (Run.claimable now)).argmin db.claimOrder

/-- The `SET` of a claim. -/
def Run.leasedBy (worker : String) (expires : Int) (run : Run) : Run :=
  { run with
    status := .leased
    leaseOwner := some worker
    leaseExpiresAt := some expires
    attempt := run.attempt + 1 }

def claimRun (db : Db) (worker : String) (leaseSeconds now : Int) : Db × Option Run :=
  let expires := addI64 now (max leaseSeconds 1)
  match db.claimCandidate now with
  | none => (db,none)
  | some row =>
    let chosen : Run → Bool := fun run => run.id == row.id && run.takeable now
    let next := db.updateRuns chosen (Run.leasedBy worker expires)
    (next,if db.runs.affected chosen = 0 then none else next.getRun row.id)

def Run.started (now : Int) (run : Run) : Run := { run with status := .running, startedAt := some now }

def startLeasedRun (db : Db) (runId : Int) (worker : String) (now : Int) : Db × Bool :=
  let chosen : Run → Bool := fun run =>
    run.id == runId && run.status == .leased && run.leaseOwner == some worker && !run.cancelRequested
  (db.updateRuns chosen (Run.started now),db.runs.affected chosen > 0)

def Run.renewed (expires : Int) (run : Run) : Run := { run with leaseExpiresAt := some expires }

def renewRun (db : Db) (runId : Int) (worker : String) (leaseSeconds now : Int) : Db × Bool :=
  let chosen : Run → Bool := fun run =>
    run.id == runId && run.status.held && run.leaseOwner == some worker
  (db.updateRuns chosen (Run.renewed (addI64 now (max leaseSeconds 1))),db.runs.affected chosen > 0)

/-- A pending run is cancelled at once, a held one is asked to stop. -/
def Run.cancelAsked (now : Int) (run : Run) : Run :=
  { run with
    status := if run.status = .pending then .cancelled else run.status
    cancelRequested := true
    finishedAt := if run.status = .pending then some now else run.finishedAt }

@[simp] theorem Run.cancelAsked_held (now : Int) (run : Run) :
    (run.cancelAsked now).status.held = run.status.held := by
  cases status : run.status <;> simp [Run.cancelAsked,RunStatus.held,status]

def cancelRun (db : Db) (runId now : Int) : Db × Bool :=
  let chosen : Run → Bool := fun run => run.id == runId && run.status.active
  (db.updateRuns chosen (Run.cancelAsked now),db.runs.affected chosen > 0)

def Run.recovered (now : Int) (run : Run) : Run :=
  { run with
    status := if run.cancelRequested then .cancelled else .pending
    leaseOwner := none
    leaseExpiresAt := none
    finishedAt := if run.cancelRequested then some now else run.finishedAt }

@[simp] theorem Run.recovered_held (now : Int) (run : Run) : (run.recovered now).status.held = false := by
  cases flag : run.cancelRequested <;> simp [Run.recovered,RunStatus.held,flag]

def recoverExpiredRuns (db : Db) (now : Int) : Db × Nat :=
  let chosen : Run → Bool := fun run => run.status.held && sqlLe run.leaseExpiresAt now
  (db.updateRuns chosen (Run.recovered now),db.runs.affected chosen)

def Run.finished (httpStatus : Option Int) (error : Option String) (now : Int) (run : Run) : Run :=
  { run with
    status := if run.cancelRequested then .cancelled else if error.isSome then .failed else .succeeded
    httpStatus := httpStatus
    error := error.map Redact.redact
    finishedAt := some now
    leaseOwner := none
    leaseExpiresAt := none }

@[simp] theorem Run.finished_held (httpStatus : Option Int) (error : Option String) (now : Int) (run : Run) :
    (run.finished httpStatus error now).status.held = false := by
  cases flag : run.cancelRequested <;> cases error <;> simp [Run.finished,RunStatus.held,flag]

/-- A worker's own end of a run. The condition names the run and its status;
the owner of the lease is not part of it. -/
def finishRun (db : Db) (runId : Int) (httpStatus : Option Int) (error : Option String) (now : Int) : Db :=
  db.updateRuns (fun run => run.id == runId && run.status.held) (Run.finished httpStatus error now)

/-- The log line of a run. -/
def recordRunLog (db : Db) (runId : Int) (log : String) : Db :=
  db.updateRuns (·.id == runId) fun run => { run with log := some (Redact.redact log) }

/-- Only the newest failed run of a task keeps its trace. -/
def recordLatestFailedRunTrace (db : Db) (taskId runId : Int) (trace : String) : Db :=
  (db.updateRuns (fun run => run.taskId == taskId && run.id != runId)
    fun run => { run with failureTrace := none }).updateRuns
      (fun run => run.id == runId && run.taskId == taskId)
      fun run => { run with failureTrace := some (Redact.redact trace) }

def TaskRow.recorded (status : Option Int) (error : Option String) (now : Int) (task : TaskRow) : TaskRow :=
  { task with lastRunAt := some now, lastStatus := status, lastError := error }

/-- `UPDATE tasks SET last_run_at, last_status, last_error`. -/
def recordRun (db : Db) (id : Int) (status : Option Int) (error : Option String) (now : Int) : Db :=
  { db with tasks := db.tasks.update (·.id == id) (TaskRow.recorded status error now) fun _ => rfl }

end Qdrust.Store
