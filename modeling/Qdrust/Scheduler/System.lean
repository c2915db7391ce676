import Mathlib.Logic.Function.Basic
import Qdrust.Library.Transition
import Qdrust.Scheduler.Due
import Qdrust.Store.RunLifecycle

/-! Several server processes over one database. Each runs a worker loop and a
tick loop; a phase is named after the store call the loop makes next, and every
call is one step. API callers enqueue and cancel between any two steps. -/
namespace Qdrust.Scheduler
open Library Store

/-- An error text cut at 4096 characters. -/
def boundedError (message : String) : String :=
  String.ofList (message.toList.take 4096) ++ if message.toList.length > 4096 then "..." else ""

def maxTraceBytes : Nat := 256 * 1024

/-- The longest prefix of at most `bytes` bytes. -/
def truncate : Nat → List Char → List Char
  | _, [] => []
  | bytes, c :: rest => if c.utf8Size ≤ bytes then c :: truncate (bytes - c.utf8Size) rest else []

def formatTrace (steps : List String) (error : String) : String :=
  let trace :=
    if steps.isEmpty then "No request step completed before the failure.\n\n" ++ error
    else String.intercalate "\n\n" steps ++ "\n\nerror:\n" ++ error
  if trace.utf8ByteSize > maxTraceBytes then
    String.ofList (truncate maxTraceBytes trace.toList) ++ "\n\n[trace truncated]"
  else trace

/-- How the execution of a run ends: with an HTTP status and a log line, or with
an error text and the steps traced until then. -/
inductive Outcome where
  | ok (status : Int) (log : Option String)
  | err (text : String) (steps : List String)

/-- The completion takes an error for a cancellation by its text. -/
def Outcome.cancelled : Outcome → Bool
  | .ok _ _ => false
  | .err text _ => Text.contains (boundedError text) "execution cancelled"

/-- What the completion passes to `finish_run`. -/
def Outcome.httpStatus : Outcome → Option Int
  | .ok status _ => some status
  | .err _ _ => none

def Outcome.error (outcome : Outcome) : Option String :=
  match outcome with
  | .ok _ _ => none
  | .err text _ => if outcome.cancelled then none else some (boundedError text)

/-- The call a worker makes next, with what it has read so far. -/
inductive Phase where
  | recover
  | claim
  | start (run : Run)
  | load (run : Run)
  | execute (run : Run) (task : Task)
  | record (run : Run) (task : Task) (outcome : Outcome)
  | trace (run : Run) (task : Task) (outcome : Outcome)
  | finish (run : Run) (task : Task) (outcome : Outcome)
  | log (run : Run) (text : String)
  | count (run : Run) (task : Task)
  | schedule (run : Run) (task : Task)

/-- The run a worker has claimed and not left. -/
def Phase.run : Phase → Option Run
  | .recover | .claim => none
  | .start run | .load run | .execute run _ | .record run _ _ | .trace run _ _ | .finish run _ _
  | .log run _ | .count run _ | .schedule run _ => some run

/-- The task a worker has read for its run. -/
def Phase.task : Phase → Option Task
  | .execute _ task | .record _ task _ | .trace _ task _ | .finish _ task _ | .count _ task
  | .schedule _ task => some task
  | _ => none

/-- The end of an execution: a cancelled run goes straight to `finish_run`. -/
def completion (run : Run) (task : Task) (outcome : Outcome) : Phase :=
  if outcome.cancelled then .finish run task outcome else .record run task outcome

/-- What follows `record_run`. -/
def afterRecord (run : Run) (task : Task) (outcome : Outcome) : Phase :=
  match outcome with
  | .ok _ _ => .finish run task outcome
  | .err _ _ => .trace run task outcome

/-- What follows `finish_run`. -/
def afterFinish (run : Run) (task : Task) (outcome : Outcome) : Phase :=
  match outcome with
  | .ok _ (some text) => .log run text
  | .ok _ none => .recover
  | .err _ _ =>
    if outcome.cancelled then .recover
    else if task.retryCount.getD 0 ≠ 0 then .count run task
    else .recover

def original (run : Run) : Int := run.retryOf.getD run.id

def retryAllowed (task : Task) (done : Int) : Bool :=
  task.retryCount.getD 0 == -1 || done < task.retryCount.getD 0

def retryDelay (task : Task) : Int := (task.retryIntervalSeconds.filter (0 < ·)).getD 60

/-- What a history remembers of the steps taken; the code does not. -/
inductive Event (Proc : Type) where
  | claimed (p : Proc) (run : Int)
  | cancelled (run : Int)
  | retried (retry failed : Int)
  | fired (task occurrence run : Int)
  deriving DecidableEq

variable {Proc : Type}

/-- One step of the worker loop of process `p`. -/
def work (name : String) (p : Proc) (now : Int) (db : Db) : Phase → Db × Phase × List (Event Proc)
  | .recover => ((recoverExpiredRuns db now).1,.claim,[])
  | .claim =>
    match claimRun db name 300 now with
    | (next,some run) => (next,.start run,[.claimed p run.id])
    | (next,none) => (next,.recover,[])
  | .start run =>
    match startLeasedRun db run.id name now with
    | (next,true) => (next,.load run,[])
    | (next,false) => (next,.recover,[])
  | .load run =>
    match db.get run.taskId with
    | some task => (db,.execute run task,[])
    | none => (db,.recover,[])
  | .execute run task => (db,.execute run task,[])
  | .record run task outcome =>
    (recordRun db task.id outcome.httpStatus outcome.error now,afterRecord run task outcome,[])
  | .trace run task outcome =>
    let trace := match outcome with
      | .ok _ _ => ""
      | .err text steps => formatTrace steps (boundedError text)
    (recordLatestFailedRunTrace db task.id run.id trace,.finish run task outcome,[])
  | .finish run task outcome =>
    (finishRun db run.id outcome.httpStatus outcome.error now,afterFinish run task outcome,[])
  | .log run text => (recordRunLog db run.id text,.recover,[])
  | .count run task =>
    if retryAllowed task (countRetries db (original run)) then (db,.schedule run task,[])
    else (db,.recover,[])
  | .schedule run task =>
    let (next,retry) := scheduleRetry db task.id (original run) (retryDelay task) now
    (next,.recover,retry.toList.map fun retry => .retried retry.id run.id)

/-- The call a tick loop makes next. The occurrence a task is due for is
remembered, not used. -/
inductive Ticker where
  | list
  | check (tasks : List Task)
  | enqueue (task : Task) (occurrence : Int) (rest : List Task)

/-- The tasks a tick has listed and not left. -/
def Ticker.tasks : Ticker → List Task
  | .list => []
  | .check tasks => tasks
  | .enqueue task _ rest => task :: rest

/-- What the processes share and what each of them is called. -/
structure Deployment (Proc : Type) where
  cron : Cron
  interval : Int
  defaultTz : cron.Tz
  pid : Proc → Nat

def workerName (pid : Nat) : String := "worker-" ++ toString pid

namespace Deployment

variable (d : Deployment Proc)

def name (p : Proc) : String := workerName (d.pid p)

/-- One step of the tick loop. `draw` is the random number of the delay. -/
def tickOn (now again : Int) (draw : Nat) (db : Db) : Ticker → Db × Ticker × List (Event Proc)
  | .list => (db,.check db.list,[])
  | .check [] => (db,.list,[])
  | .check (task :: rest) =>
    match upcoming d.cron task d.interval d.defaultTz again with
    | some next =>
      if due d.cron task d.interval d.defaultTz now again then (db,.enqueue task next rest,[])
      else (db,.check rest,[])
    | none => (db,.check rest,[])
  | .enqueue task occurrence rest =>
    let maxDelay := task.randomDelayMaxSeconds.getD 0
    let (next,run) :=
      if 0 < maxDelay then
        enqueueDelayedRun db task.id (draw % (min maxDelay 604800 + 1)) (timestamp now)
      else enqueueRunWithTrigger db task.id "scheduled" (timestamp now)
    (next,.check rest,run.toList.map fun run => .fired task.id occurrence run.id)

end Deployment

structure System (Proc : Type) where
  db : Db
  clock : Int
  phase : Proc → Phase
  tick : Proc → Ticker
  history : List (Event Proc)

/-- Processes that start over an empty `runs` table. -/
def System.init (tasks : Table TaskRow TaskRow.id) (clock : Int) : System Proc where
  db := Db.empty tasks
  clock := clock
  phase := fun _ => .recover
  tick := fun _ => .list
  history := []

inductive Action (Proc : Type) where
  | advance (elapsed : Nat)
  | enqueue (taskId : Int)
  | cancel (runId : Int)
  | proceed (p : Proc)
  | complete (p : Proc) (outcome : Outcome)
  | renew (p : Proc)
  | crash (p : Proc)
  | tick (p : Proc) (elapsed draw : Nat)

variable [DecidableEq Proc]

namespace System

/-- The clock moves on, within the instants a date can name. -/
def advance (s : System Proc) (elapsed : Nat) : Option (System Proc) :=
  if s.clock + elapsed ≤ maxTimestamp * nanos then some { s with clock := s.clock + elapsed } else none

/-- `run_task` of the API. -/
def enqueue (s : System Proc) (taskId : Int) : Option (System Proc) :=
  (s.db.get taskId).map fun _ => { s with db := (enqueueRun s.db taskId (timestamp s.clock)).1 }

/-- `cancel_run` of the API. -/
def cancel (s : System Proc) (runId : Int) : System Proc :=
  let (db,hit) := cancelRun s.db runId (timestamp s.clock)
  { s with db := db, history := if hit then .cancelled runId :: s.history else s.history }

def proceed (d : Deployment Proc) (s : System Proc) (p : Proc) : System Proc :=
  let (db,phase,events) := work (d.name p) p (timestamp s.clock) s.db (s.phase p)
  { s with db := db, phase := Function.update s.phase p phase, history := events ++ s.history }

/-- The execution of the run ends, with whatever outcome. -/
def complete (s : System Proc) (p : Proc) (outcome : Outcome) : Option (System Proc) :=
  match s.phase p with
  | .execute run task => some { s with phase := Function.update s.phase p (completion run task outcome) }
  | _ => none

/-- The supervisor of a template run renews its lease. -/
def renew (d : Deployment Proc) (s : System Proc) (p : Proc) : Option (System Proc) :=
  match s.phase p with
  | .execute run task =>
    if task.templateId.isSome then
      some { s with db := (renewRun s.db run.id (d.name p) 300 (timestamp s.clock)).1 }
    else none
  | _ => none

/-- The process ends and another takes its place under the same name. -/
def crash (s : System Proc) (p : Proc) : System Proc :=
  { s with phase := Function.update s.phase p .recover, tick := Function.update s.tick p .list }

/-- A step of the tick loop; the clock is read at its beginning and its end. -/
def tickStep (d : Deployment Proc) (s : System Proc) (p : Proc) (elapsed draw : Nat) : Option (System Proc) :=
  (s.advance elapsed).map fun later =>
    let (db,ticker,events) := d.tickOn s.clock later.clock draw s.db (s.tick p)
    { later with db := db, tick := Function.update s.tick p ticker, history := events ++ s.history }

end System

def step (d : Deployment Proc) (s : System Proc) : Action Proc → Option (System Proc)
  | .advance elapsed => s.advance elapsed
  | .enqueue taskId => s.enqueue taskId
  | .cancel runId => some (s.cancel runId)
  | .proceed p => some (s.proceed d p)
  | .complete p outcome => s.complete p outcome
  | .renew p => s.renew d p
  | .crash p => some (s.crash p)
  | .tick p elapsed draw => s.tickStep d p elapsed draw

/-- A table of one task. -/
def oneTask (row : TaskRow) : Table TaskRow TaskRow.id := ⟨[row],row.id,by simp,by simp⟩

/-- One process that ticks every fifteen seconds. -/
def single : Deployment Unit := ⟨everyMinute,15 * nanos,(),fun _ => 1⟩

/-- Two processes that tick every fifteen seconds. -/
def replicas (pid : Bool → Nat) : Deployment Bool := ⟨everyMinute,15 * nanos,(),pid⟩

end Qdrust.Scheduler
