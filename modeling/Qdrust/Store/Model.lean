import Mathlib.Algebra.Group.Nat.Defs
import Mathlib.Algebra.Group.Int.Defs
import Qdrust.Library.Json
import Qdrust.Library.Table

/-! Rows of the `tasks` and `runs` tables and the values read from them. -/
namespace Qdrust.Store
open Library

/-- A row of `tasks`. -/
structure TaskRow where
  id : Int
  ownerId : Option Int
  name : String
  cron : String
  method : String
  url : String
  headers : Json
  body : Option String
  disabled : Bool
  createdAt : Int
  updatedAt : Int
  lastRunAt : Option Int
  lastStatus : Option Int
  lastError : Option String
  templateId : Option Int
  grp : Option String
  timeoutSeconds : Option Int
  retryCount : Option Int
  retryIntervalSeconds : Option Int
  priority : Int
  timezone : Option String
  randomDelayMaxSeconds : Int
  vars : Option Json

/-- A task as the store hands it out. Two columns are `NOT NULL` in the schema
and optional here. -/
structure Task where
  id : Int
  name : String
  cron : String
  method : String
  url : String
  headers : Json
  body : Option String
  disabled : Bool
  createdAt : Int
  updatedAt : Int
  lastRunAt : Option Int
  lastStatus : Option Int
  lastError : Option String
  templateId : Option Int
  grp : Option String
  timeoutSeconds : Option Int
  retryCount : Option Int
  retryIntervalSeconds : Option Int
  priority : Option Int
  timezone : Option String
  randomDelayMaxSeconds : Option Int
  vars : Option Json

def taskFromRow (row : TaskRow) : Task where
  id := row.id
  name := row.name
  cron := row.cron
  method := row.method
  url := row.url
  headers := row.headers
  body := row.body
  disabled := row.disabled
  createdAt := row.createdAt
  updatedAt := row.updatedAt
  lastRunAt := row.lastRunAt
  lastStatus := row.lastStatus
  lastError := row.lastError
  templateId := row.templateId
  grp := row.grp
  timeoutSeconds := row.timeoutSeconds
  retryCount := row.retryCount
  retryIntervalSeconds := row.retryIntervalSeconds
  priority := some row.priority
  timezone := row.timezone
  randomDelayMaxSeconds := some row.randomDelayMaxSeconds
  vars := row.vars

inductive RunStatus where
  | pending | leased | running | succeeded | failed | cancelled
  deriving DecidableEq

namespace RunStatus

/-- `status IN ('leased','running')`. -/
def held : RunStatus → Bool
  | .leased | .running => true
  | _ => false

/-- `status IN ('pending','leased','running')`. -/
def active : RunStatus → Bool
  | .pending | .leased | .running => true
  | _ => false

def terminal (status : RunStatus) : Bool := !status.active

@[simp] theorem terminal_eq_false {status : RunStatus} : status.terminal = false ↔ status.active = true := by
  simp [terminal]

theorem active_of_held {status : RunStatus} (held : status.held = true) : status.active = true := by
  cases status <;> simp_all [RunStatus.held,active]

end RunStatus

/-- A row of `runs`. -/
structure Run where
  id : Int
  taskId : Int
  status : RunStatus
  httpStatus : Option Int
  error : Option String
  log : Option String
  failureTrace : Option String
  startedAt : Option Int
  finishedAt : Option Int
  createdAt : Int
  leaseOwner : Option String
  leaseExpiresAt : Option Int
  attempt : Int
  cancelRequested : Bool
  runAfter : Option Int
  retryOf : Option Int
  trigger : String
  deriving DecidableEq

structure Db where
  tasks : Table TaskRow TaskRow.id
  runs : Table Run Run.id

def Db.empty (tasks : Table TaskRow TaskRow.id) : Db := ⟨tasks,Table.empty⟩

/-- Addition of 64-bit integers, which wraps. -/
def addI64 (a b : Int) : Int := Int.bmod (a + b) (2 ^ 64)

/-- `column <= bound`, false when the column is `NULL`. -/
def sqlLe (column : Option Int) (bound : Int) : Bool :=
  match column with
  | some value => value ≤ bound
  | none => false

end Qdrust.Store
