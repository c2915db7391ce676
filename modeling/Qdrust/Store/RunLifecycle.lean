import Qdrust.Store.Runs

/-! The life of a run under any order of store calls: what a statement may do to
a row, the invariant of the table, and both over whole histories. -/
namespace Qdrust.Store
open Library

/-- What a store call may do to a row that is there. -/
structure Moves (before after : Run) : Prop where
  id : after.id = before.id
  taskId : after.taskId = before.taskId
  retryOf : after.retryOf = before.retryOf
  trigger : after.trigger = before.trigger
  createdAt : after.createdAt = before.createdAt
  terminal : before.status.terminal → after.status = before.status
  flag : before.cancelRequested → after.cancelRequested

theorem Moves.refl (r : Run) : Moves r r := ⟨rfl,rfl,rfl,rfl,rfl,fun _ => rfl,fun flagged => flagged⟩

theorem Moves.trans (r s t : Run) (first : Moves r s) (second : Moves s t) : Moves r t where
  id := second.id.trans first.id
  taskId := second.taskId.trans first.taskId
  retryOf := second.retryOf.trans first.retryOf
  trigger := second.trigger.trans first.trigger
  createdAt := second.createdAt.trans first.createdAt
  terminal := fun ended => by
    have same := first.terminal ended
    exact (second.terminal (same ▸ ended)).trans same
  flag := fun flagged => second.flag (first.flag flagged)

theorem Moves.active {r s : Run} (moves : Moves r s) (alive : s.status.active = true) :
    r.status.active = true := by
  by_contra ended
  have same := moves.terminal (by simpa [RunStatus.terminal] using ended)
  exact ended (same ▸ alive)

/-- What is true of every row: a cancel request and the status agree, and a
held run carries a lease. -/
structure RowOk (r : Run) : Prop where
  flagged : r.cancelRequested = true → r.status.held = true ∨ r.status = .cancelled
  cancelled : r.status = .cancelled → r.cancelRequested = true
  leased : r.status.held = true → r.leaseOwner.isSome = true
  free : r.status.held = false → r.leaseOwner = none

/-- The invariant of the table. -/
structure WellFormed (db : Db) : Prop where
  rowOk : ∀ r ∈ db.runs.rows, RowOk r
  exclusive : ∀ taskId,
    db.runs.rows.countP (fun r => r.taskId == taskId && r.status.active) ≤ 1

/-- A store call keeps the invariant and every row. -/
structure Lawful (before after : Db) : Prop where
  wellFormed : WellFormed before → WellFormed after
  evolves : Table.Evolves Moves before.runs after.runs

theorem Lawful.refl (db : Db) : Lawful db db := ⟨fun ok => ok,Table.Evolves.refl Moves.refl _⟩

theorem Lawful.trans {a b c : Db} (first : Lawful a b) (second : Lawful b c) : Lawful a c :=
  ⟨fun ok => second.wellFormed (first.wellFormed ok),first.evolves.trans Moves.trans second.evolves⟩

theorem mem_updateRuns {db : Db} {chosen : Run → Bool} {set : Run → Run} {keeps : ∀ r, (set r).id = r.id}
    {r' : Run} : r' ∈ (db.updateRuns chosen set keeps).runs.rows ↔
      ∃ old ∈ db.runs.rows, r' = if chosen old then set old else old :=
  Table.mem_update _ keeps

/-- An update is lawful when it is so on each row it selects. -/
theorem updateRuns_lawful (db : Db) {chosen : Run → Bool} {set : Run → Run}
    {keeps : ∀ r, (set r).id = r.id} (moves : ∀ r, chosen r → Moves r (set r))
    (rows : ∀ r, chosen r → RowOk r → RowOk (set r)) : Lawful db (db.updateRuns chosen set keeps) := by
  refine ⟨fun ok => ⟨?_,?_⟩,Table.evolves_update _ keeps Moves.refl moves⟩
  · intro r member
    obtain ⟨old,present,rfl⟩ := mem_updateRuns.mp member
    split
    next picked => exact rows old picked (ok.rowOk old present)
    next => exact ok.rowOk old present
  · intro taskId
    refine le_trans (Table.countP_update_le db.runs keeps fun r picked alive => ?_) (ok.exclusive taskId)
    have moved := moves r picked
    simp only [Bool.and_eq_true,beq_iff_eq] at alive ⊢
    exact ⟨moved.taskId ▸ alive.1,moved.active alive.2⟩

theorem hasActive_eq_false (db : Db) (taskId : Int) :
    db.hasActive taskId = false ↔
      db.runs.rows.countP (fun r => r.taskId == taskId && r.status.active) = 0 := by
  simp only [Db.hasActive,List.any_eq_false,List.countP_eq_zero]

theorem insertPending_lawful (db : Db) (taskId now : Int) (runAfter retryOf : Option Int) (trigger : String) :
    Lawful db (insertPending db taskId now runAfter retryOf trigger).1 := by
  unfold insertPending
  split
  · exact Lawful.refl db
  next vacant =>
    refine ⟨fun ok => ⟨?_,?_⟩,Table.evolves_insert _ (fun _ => rfl) Moves.refl⟩
    · intro r member
      rcases (Table.mem_insert _ fun _ => rfl).mp member with old | rfl
      · exact ok.rowOk r old
      · constructor <;> simp [pendingRun,RunStatus.held]
    · intro other
      have none := (hasActive_eq_false db taskId).mp (by simpa using vacant)
      simp only [Table.insert,List.countP_append,List.countP_cons,List.countP_nil]
      by_cases same : taskId = other
      · subst other
        rw [none]
        split <;> omega
      · have old := ok.exclusive other
        simpa [pendingRun,same] using old

theorem claimRun_lawful (db : Db) (worker : String) (leaseSeconds now : Int) :
    Lawful db (claimRun db worker leaseSeconds now).1 := by
  unfold claimRun
  split
  · exact Lawful.refl db
  next row _ =>
    refine updateRuns_lawful db (fun r picked => ?_) (fun r picked ok => ?_)
    · simp only [Run.takeable,Bool.and_eq_true,Bool.or_eq_true,beq_iff_eq] at picked
      refine ⟨rfl,rfl,rfl,rfl,rfl,fun ended => ?_,fun flagged => flagged⟩
      cases status : r.status <;> simp_all [RunStatus.terminal,RunStatus.active,RunStatus.held]
    · constructor <;> simp_all [Run.takeable,Run.leasedBy,RunStatus.held]

theorem startLeasedRun_lawful (db : Db) (runId : Int) (worker : String) (now : Int) :
    Lawful db (startLeasedRun db runId worker now).1 := by
  refine updateRuns_lawful db (fun r picked => ?_) (fun r picked ok => ?_)
  · simp only [Bool.and_eq_true,beq_iff_eq] at picked
    refine ⟨rfl,rfl,rfl,rfl,rfl,fun ended => ?_,fun flagged => flagged⟩
    simp [picked.1.1.2,RunStatus.terminal,RunStatus.active] at ended
  · simp only [Bool.and_eq_true,beq_iff_eq] at picked
    constructor <;> simp_all [Run.started,RunStatus.held]

theorem renewRun_lawful (db : Db) (runId : Int) (worker : String) (leaseSeconds now : Int) :
    Lawful db (renewRun db runId worker leaseSeconds now).1 :=
  updateRuns_lawful db (fun _ _ => ⟨rfl,rfl,rfl,rfl,rfl,fun _ => rfl,fun flagged => flagged⟩)
    fun _ _ ok => ⟨ok.flagged,ok.cancelled,ok.leased,ok.free⟩

theorem cancelRun_lawful (db : Db) (runId now : Int) : Lawful db (cancelRun db runId now).1 := by
  refine updateRuns_lawful db (fun r picked => ?_) (fun r picked ok => ?_)
  · simp only [Bool.and_eq_true,beq_iff_eq] at picked
    refine ⟨rfl,rfl,rfl,rfl,rfl,fun ended => ?_,fun _ => rfl⟩
    simp [RunStatus.terminal,picked.2] at ended
  · obtain ⟨flagged,cancelled,leased,free⟩ := ok
    simp only [Bool.and_eq_true,beq_iff_eq] at picked
    constructor <;> cases status : r.status <;> simp_all [Run.cancelAsked,RunStatus.held,RunStatus.active]

theorem recoverExpiredRuns_lawful (db : Db) (now : Int) : Lawful db (recoverExpiredRuns db now).1 := by
  refine updateRuns_lawful db (fun r picked => ?_) (fun r picked ok => ?_)
  · simp only [Bool.and_eq_true] at picked
    refine ⟨rfl,rfl,rfl,rfl,rfl,fun ended => ?_,fun flagged => flagged⟩
    simp [RunStatus.terminal,RunStatus.active_of_held picked.1] at ended
  · cases flag : r.cancelRequested <;> constructor <;> simp_all [Run.recovered,RunStatus.held]

theorem finishRun_lawful (db : Db) (runId : Int) (httpStatus : Option Int) (error : Option String) (now : Int) :
    Lawful db (finishRun db runId httpStatus error now) := by
  refine updateRuns_lawful db (fun r picked => ?_) (fun r picked ok => ?_)
  · simp only [Bool.and_eq_true] at picked
    refine ⟨rfl,rfl,rfl,rfl,rfl,fun ended => ?_,fun flagged => flagged⟩
    simp [RunStatus.terminal,RunStatus.active_of_held picked.2] at ended
  · cases flag : r.cancelRequested <;> cases failed : error.isSome <;> constructor <;>
      simp_all [Run.finished,RunStatus.held]

/-- A statement that rewrites the texts of a run only. -/
theorem texts_lawful (db : Db) (chosen : Run → Bool) (log trace : Run → Option String) :
    Lawful db (db.updateRuns chosen fun run => { run with log := log run, failureTrace := trace run }) :=
  updateRuns_lawful db (fun _ _ => ⟨rfl,rfl,rfl,rfl,rfl,fun _ => rfl,fun flagged => flagged⟩)
    fun _ _ ok => ⟨ok.flagged,ok.cancelled,ok.leased,ok.free⟩

theorem recordRunLog_lawful (db : Db) (runId : Int) (log : String) : Lawful db (recordRunLog db runId log) :=
  texts_lawful db _ (fun _ => some (Redact.redact log)) Run.failureTrace

theorem recordLatestFailedRunTrace_lawful (db : Db) (taskId runId : Int) (trace : String) :
    Lawful db (recordLatestFailedRunTrace db taskId runId trace) :=
  (texts_lawful db _ Run.log fun _ => none).trans
    (texts_lawful _ _ Run.log fun _ => some (Redact.redact trace))

theorem recordRun_lawful (db : Db) (id : Int) (status : Option Int) (error : Option String) (now : Int) :
    Lawful db (recordRun db id status error now) :=
  ⟨fun ok => ⟨ok.rowOk,ok.exclusive⟩,Table.Evolves.refl Moves.refl _⟩

/-- A call of one of the statements that write the `runs` table. -/
inductive RunOp where
  | enqueueRunWithTrigger (taskId : Int) (trigger : String) (now : Int)
  | enqueueDelayedRun (taskId delaySeconds now : Int)
  | scheduleRetry (taskId retryOf delaySeconds now : Int)
  | claimRun (worker : String) (leaseSeconds now : Int)
  | startLeasedRun (runId : Int) (worker : String) (now : Int)
  | renewRun (runId : Int) (worker : String) (leaseSeconds now : Int)
  | cancelRun (runId now : Int)
  | recoverExpiredRuns (now : Int)
  | finishRun (runId : Int) (httpStatus : Option Int) (error : Option String) (now : Int)

def RunOp.apply (db : Db) : RunOp → Db
  | .enqueueRunWithTrigger taskId trigger now => (Store.enqueueRunWithTrigger db taskId trigger now).1
  | .enqueueDelayedRun taskId delaySeconds now => (Store.enqueueDelayedRun db taskId delaySeconds now).1
  | .scheduleRetry taskId retryOf delaySeconds now =>
    (Store.scheduleRetry db taskId retryOf delaySeconds now).1
  | .claimRun worker leaseSeconds now => (Store.claimRun db worker leaseSeconds now).1
  | .startLeasedRun runId worker now => (Store.startLeasedRun db runId worker now).1
  | .renewRun runId worker leaseSeconds now => (Store.renewRun db runId worker leaseSeconds now).1
  | .cancelRun runId now => (Store.cancelRun db runId now).1
  | .recoverExpiredRuns now => (Store.recoverExpiredRuns db now).1
  | .finishRun runId httpStatus error now => Store.finishRun db runId httpStatus error now

/-- A history of calls, in the order the database serialises them. -/
def RunOp.history (db : Db) (calls : List RunOp) : Db := calls.foldl RunOp.apply db

theorem RunOp.apply_lawful (db : Db) (call : RunOp) : Lawful db (call.apply db) := by
  cases call with
  | enqueueRunWithTrigger => exact insertPending_lawful ..
  | enqueueDelayedRun => exact insertPending_lawful ..
  | scheduleRetry => exact insertPending_lawful ..
  | claimRun => exact claimRun_lawful ..
  | startLeasedRun => exact startLeasedRun_lawful ..
  | renewRun => exact renewRun_lawful ..
  | cancelRun => exact cancelRun_lawful ..
  | recoverExpiredRuns => exact recoverExpiredRuns_lawful ..
  | finishRun => exact finishRun_lawful ..

theorem RunOp.history_lawful (db : Db) (calls : List RunOp) : Lawful db (history db calls) := by
  induction calls generalizing db with
  | nil => exact Lawful.refl db
  | cons call rest ih => exact (apply_lawful db call).trans (ih _)

theorem wellFormed_empty (tasks : Table TaskRow TaskRow.id) : WellFormed (Db.empty tasks) :=
  ⟨by simp [Db.empty,Table.empty],by simp [Db.empty,Table.empty]⟩

/-- Whatever the order of the calls: a task has at most one active run, an
ended run keeps its status, and a run with a cancel request can only end
cancelled. -/
theorem run_lifecycle (tasks : Table TaskRow TaskRow.id) (before after : List RunOp) :
    let s := RunOp.history (Db.empty tasks) before
    let t := RunOp.history s after
    (∀ taskId, s.runs.rows.countP (fun r => r.taskId == taskId && r.status.active) ≤ 1) ∧
    ∀ r ∈ s.runs.rows, ∃ r', t.runs.find r.id = some r' ∧
      (r.status.terminal = true → r'.status = r.status) ∧
      (r.cancelRequested = true → r'.status.terminal = true → r'.status = .cancelled) := by
  intro s t
  have first : WellFormed s := (RunOp.history_lawful _ before).wellFormed (wellFormed_empty tasks)
  have rest : Lawful s t := RunOp.history_lawful s after
  have last : WellFormed t := rest.wellFormed first
  refine ⟨first.exclusive,fun r member => ?_⟩
  obtain ⟨r',there,same,moved⟩ := rest.evolves.moved r member
  refine ⟨r',t.runs.find_eq_some.mpr ⟨there,same⟩,moved.terminal,fun flagged ended => ?_⟩
  rcases (last.rowOk r' there).flagged (moved.flag flagged) with held | cancelled
  · simp [RunStatus.terminal,RunStatus.active_of_held held] at ended
  · exact cancelled

end Qdrust.Store
