import Qdrust.Store.Runs

/-! The failures in a row that a notification waits for. -/
namespace Qdrust.Store
open Library

/-- A run of the task with the status. -/
def Run.ended (taskId : Int) (status : RunStatus) (run : Run) : Bool := run.taskId = taskId && run.status = status

/-- `COALESCE((SELECT MAX(created_at) .. status='succeeded'), 0)`. -/
def lastSucceeded (db : Db) (taskId : Int) : Int :=
  (((db.runs.rows.filter (Run.ended taskId .succeeded)).map Run.createdAt).max?).getD 0

/-- `count_recent_failures`. -/
def countRecentFailures (db : Db) (taskId : Int) : Int :=
  db.runs.rows.countP fun run => run.ended taskId .failed && lastSucceeded db taskId ≤ run.createdAt

structure NotificationAction where
  automaticOnly : Bool
  failureThreshold : Int

/-- Whether `send_notifications` passes a delivery by. -/
def passedBy (event : String) (automatic : Bool) (failureCount : Int) (action : NotificationAction) : Bool :=
  (action.automaticOnly && !automatic) || (event = "failure" && failureCount < action.failureThreshold)

/-- A run behind all runs of the task that succeeded. -/
def Db.behindSuccess (db : Db) (taskId : Int) (run : Run) : Bool :=
  (db.runs.rows.filter (Run.ended taskId .succeeded)).all fun earlier => earlier.id < run.id

/-- The failures since the last success, in the order of the runs. -/
def Db.streak (db : Db) (taskId : Int) : Int :=
  db.runs.rows.countP fun run => run.ended taskId .failed && db.behindSuccess taskId run

/-- The failures before a success that the query counts. -/
def Db.overcounted (db : Db) (taskId : Int) : Nat :=
  db.runs.rows.countP fun run => run.ended taskId .failed && (lastSucceeded db taskId ≤ run.createdAt && !db.behindSuccess taskId run)

/-- The failures of the streak that it does not count. -/
def Db.missed (db : Db) (taskId : Int) : Nat :=
  db.runs.rows.countP fun run => run.ended taskId .failed && (run.createdAt < lastSucceeded db taskId && db.behindSuccess taskId run)

/-- Counts of two properties differ by what has one of them alone. -/
theorem countP_exchange {α : Type} (p q : α → Bool) (xs : List α) :
    xs.countP p + xs.countP (fun x => q x && !p x) = xs.countP q + xs.countP fun x => p x && !q x := by
  induction xs with
  | nil => rfl
  | cons x xs ih =>
    simp only [List.countP_cons]
    cases p x <;> cases q x <;> simp <;> omega

theorem count_streak (db : Db) (taskId : Int) :
    countRecentFailures db taskId + db.missed taskId = db.streak taskId + db.overcounted taskId := by
  have exchange := countP_exchange (fun run : Run => run.ended taskId .failed && lastSucceeded db taskId ≤ run.createdAt)
    (fun run => run.ended taskId .failed && db.behindSuccess taskId run) db.runs.rows
  have missed : db.missed taskId = db.runs.rows.countP fun run => (run.ended taskId .failed && db.behindSuccess taskId run) &&
      !(run.ended taskId .failed && decide (lastSucceeded db taskId ≤ run.createdAt)) := by
    refine List.countP_congr fun run _ => ?_
    by_cases early : lastSucceeded db taskId ≤ run.createdAt
    · cases run.ended taskId .failed <;> simp [early,Int.not_lt.mpr early]
    · cases run.ended taskId .failed <;> cases db.behindSuccess taskId run <;> simp [early,Int.not_le.mp early]
  have overcounted : db.overcounted taskId = db.runs.rows.countP fun run =>
      (run.ended taskId .failed && decide (lastSucceeded db taskId ≤ run.createdAt)) &&
        !(run.ended taskId .failed && db.behindSuccess taskId run) := by
    refine List.countP_congr fun run _ => ?_
    cases run.ended taskId .failed <;> simp
  rw [countRecentFailures,Db.streak,missed,overcounted]
  exact_mod_cast exchange

section Clock

variable {db : Db} {taskId : Int}

theorem lastSucceeded_le {bound : Int} (natural : 0 ≤ bound)
    (all : ∀ run ∈ db.runs.rows, run.ended taskId .succeeded = true → run.createdAt ≤ bound) : lastSucceeded db taskId ≤ bound := by
  unfold lastSucceeded
  cases latest : ((db.runs.rows.filter (Run.ended taskId .succeeded)).map Run.createdAt).max? with
  | none => exact natural
  | some created =>
    obtain ⟨run,there,rfl⟩ := List.mem_map.mp (List.max?_mem latest)
    obtain ⟨stored,succeeded⟩ := List.mem_filter.mp there
    exact all run stored succeeded

/-- Later runs have greater numbers, so their clock is not behind. -/
theorem created_le (forward : db.runs.rows.Pairwise fun a b => a.createdAt ≤ b.createdAt) {a b : Run} (first : a ∈ db.runs.rows)
    (second : b ∈ db.runs.rows) (later : a.id < b.id) : a.createdAt ≤ b.createdAt := by
  have ordered : db.runs.rows.Pairwise fun a b => a.id < b.id := List.pairwise_map.mp db.runs.ascending
  obtain ⟨i,inside,rfl⟩ := List.getElem_of_mem first
  obtain ⟨j,inside',rfl⟩ := List.getElem_of_mem second
  rcases Nat.lt_trichotomy i j with before | same | behind
  · exact List.pairwise_iff_getElem.mp forward i j inside inside' before
  · subst same
    omega
  · have other := List.pairwise_iff_getElem.mp ordered j i inside' inside behind
    omega

theorem missed_zero (forward : db.runs.rows.Pairwise fun a b => a.createdAt ≤ b.createdAt)
    (epoch : ∀ run ∈ db.runs.rows, 0 ≤ run.createdAt) : db.missed taskId = 0 := by
  refine List.countP_eq_zero.mpr fun run stored => ?_
  simp only [Bool.and_eq_true,decide_eq_true_eq,not_and]
  intro _ early behind
  have latest : lastSucceeded db taskId ≤ run.createdAt := by
    refine lastSucceeded_le (epoch run stored) fun other there succeeded => ?_
    have before := List.all_eq_true.mp behind other (List.mem_filter.mpr ⟨there,succeeded⟩)
    exact created_le forward there stored (of_decide_eq_true before)
  omega

/-- Where the clock does not go back between runs, the count is right exactly when no failure before the last success was
created in the second of that success. -/
theorem count_recent_failures_clock (forward : db.runs.rows.Pairwise fun a b => a.createdAt ≤ b.createdAt)
    (epoch : ∀ run ∈ db.runs.rows, 0 ≤ run.createdAt) :
    countRecentFailures db taskId = db.streak taskId ↔
      ∀ run ∈ db.runs.rows, run.ended taskId .failed = true → db.behindSuccess taskId run = false →
        run.createdAt < lastSucceeded db taskId := by
  have balance := count_streak db taskId
  have hidden : db.missed taskId = 0 := missed_zero forward epoch
  calc
    countRecentFailures db taskId = db.streak taskId ↔ db.overcounted taskId = 0 := by omega
    _ ↔ _ := by
      rw [Db.overcounted,List.countP_eq_zero]
      refine forall₂_congr fun run stored => ?_
      cases run.ended taskId .failed <;> cases db.behindSuccess taskId run <;> simp

end Clock

/-- A task with a failed run and a succeeded one of the same second. -/
def alternating : Db where
  tasks := Table.empty
  runs := (Table.empty.insert (fun id => { pendingRun 1 100 none none "cron" id with status := .failed }) fun _ => rfl).insert
    (fun id => { pendingRun 1 100 none none "cron" id with status := .succeeded }) fun _ => rfl

end Qdrust.Store
