import Qdrust.Scheduler.Calls

/-! What one step of the system can do. Every invariant is derived from this. -/
namespace Qdrust.Scheduler
open Library Store

variable {Proc : Type}

variable {d : Deployment Proc} {s t : System Proc} {a : Action Proc}

theorem advance_spec {elapsed : Nat} (taken : s.advance elapsed = some t) :
    s.clock + elapsed ≤ maxTimestamp * nanos ∧ t = { s with clock := s.clock + elapsed } := by
  unfold System.advance at taken
  split at taken
  next fits => exact ⟨fits,(Option.some.inj taken).symm⟩
  next => cases taken

theorem enqueue_spec {taskId : Int} (taken : s.enqueue taskId = some t) :
    t = { s with db := (enqueueRun s.db taskId (timestamp s.clock)).1 } := by
  obtain ⟨_,_,rfl⟩ := Option.map_eq_some_iff.mp taken
  rfl

theorem renew_spec {p : Proc} (taken : s.renew d p = some t) :
    ∃ run task, s.phase p = .execute run task ∧ task.templateId.isSome = true ∧
      t = { s with db := (renewRun s.db run.id (d.name p) 300 (timestamp s.clock)).1 } := by
  unfold System.renew at taken
  split at taken
  next run task executing =>
    split at taken
    next template => exact ⟨run,task,executing,template,(Option.some.inj taken).symm⟩
    next => cases taken
  next => cases taken

/-- The rows a step inserts: the task has no active run, and the key is fresh. -/
inductive NewRow (d : Deployment Proc) (s : System Proc) : Action Proc → Run → Prop where
  | manual (taskId : Int) (vacant : s.db.hasActive taskId = false) :
    NewRow d s (.enqueue taskId)
      (pendingRun taskId (timestamp s.clock) none none "manual" (s.db.runs.last + 1))
  | retried (p : Proc) (run : Run) (task : Task) (runAfter : Option Int)
    (scheduling : s.phase p = .schedule run task) (vacant : s.db.hasActive task.id = false) :
    NewRow d s (.proceed p)
      (pendingRun task.id (timestamp s.clock) runAfter (some (original run)) "retry" (s.db.runs.last + 1))
  | fired (p : Proc) (elapsed draw : Nat) (task : Task) (occurrence : Int) (rest : List Task)
    (runAfter : Option Int) (firing : s.tick p = .enqueue task occurrence rest)
    (vacant : s.db.hasActive task.id = false) :
    NewRow d s (.tick p elapsed draw)
      (pendingRun task.id (timestamp s.clock) runAfter none "scheduled" (s.db.runs.last + 1))

theorem NewRow.id {r : Run} (new : NewRow d s a r) : r.id = s.db.runs.last + 1 := by
  cases new <;> rfl

theorem NewRow.status {r : Run} (new : NewRow d s a r) : r.status = .pending := by
  cases new <;> rfl

theorem NewRow.vacant {r : Run} (new : NewRow d s a r) : s.db.hasActive r.taskId = false := by
  cases new <;> assumption

/-- What a step adds to the history. -/
def logged (d : Deployment Proc) (s : System Proc) : Action Proc → List (Event Proc)
  | .cancel runId =>
    if (cancelRun s.db runId (timestamp s.clock)).2 then [.cancelled runId] else []
  | .proceed p => (work (d.name p) p (timestamp s.clock) s.db (s.phase p)).2.2
  | .tick p elapsed draw => (d.tickOn s.clock (s.clock + elapsed) draw s.db (s.tick p)).2.2
  | _ => []

inductive Logged (d : Deployment Proc) (s : System Proc) : Action Proc → Event Proc → Prop where
  | claimed (p : Proc) (row : Run) (claiming : s.phase p = .claim)
    (best : s.db.claimCandidate (timestamp s.clock) = some row) :
    Logged d s (.proceed p) (.claimed p row.id)
  | cancelled (r : Run) (member : r ∈ s.db.runs.rows) (active : r.status.active = true) :
    Logged d s (.cancel r.id) (.cancelled r.id)
  | retried (p : Proc) (run : Run) (task : Task) (scheduling : s.phase p = .schedule run task)
    (vacant : s.db.hasActive task.id = false) :
    Logged d s (.proceed p) (.retried (s.db.runs.last + 1) run.id)
  | fired (p : Proc) (elapsed draw : Nat) (task : Task) (occurrence : Int) (rest : List Task)
    (firing : s.tick p = .enqueue task occurrence rest) (vacant : s.db.hasActive task.id = false) :
    Logged d s (.tick p elapsed draw) (.fired task.id occurrence (s.db.runs.last + 1))

theorem cancel_hit (db : Db) (runId now : Int) :
    (cancelRun db runId now).2 = true ↔ ∃ r ∈ db.runs.rows, r.id = runId ∧ r.status.active = true := by
  simp [cancelRun,Table.affected,List.countP_pos_iff]

theorem logged_cases {e : Event Proc} (member : e ∈ logged d s a) : Logged d s a e := by
  cases a with
  | advance _ => cases member
  | enqueue _ => cases member
  | complete _ _ => cases member
  | renew _ => cases member
  | crash _ => cases member
  | cancel runId =>
    simp only [logged] at member
    split at member
    next hit =>
      cases List.mem_singleton.mp member
      obtain ⟨r,there,rfl,active⟩ := (cancel_hit _ _ _).mp hit
      exact .cancelled r there active
    next => cases member
  | proceed p =>
    simp only [logged] at member
    cases phase : s.phase p with
    | claim =>
      rw [phase] at member
      cases best : s.db.claimCandidate (timestamp s.clock) with
      | none =>
        rw [work_claim_none best] at member
        cases member
      | some row =>
        rw [work_claim_found best] at member
        cases List.mem_singleton.mp member
        exact .claimed p row phase best
    | schedule run task =>
      rw [phase,work_schedule] at member
      split at member
      next => cases member
      next vacant =>
        cases List.mem_singleton.mp member
        exact .retried p run task phase (by simpa using vacant)
    | start run =>
      rw [phase] at member
      simp only [work] at member
      split at member <;> cases member
    | load run =>
      rw [phase] at member
      simp only [work] at member
      split at member <;> cases member
    | count run task =>
      rw [phase] at member
      simp only [work] at member
      split at member <;> cases member
    | recover => rw [phase] at member; cases member
    | execute run task => rw [phase] at member; cases member
    | record run task outcome => rw [phase] at member; cases member
    | trace run task outcome => rw [phase] at member; cases member
    | finish run task outcome => rw [phase] at member; cases member
    | log run text => rw [phase] at member; cases member
  | tick p elapsed draw =>
    simp only [logged] at member
    by_cases quiet : ∀ task occurrence rest, s.tick p ≠ .enqueue task occurrence rest
    · rw [(tickOn_quiet d s.clock (s.clock + elapsed) draw s.db quiet).2] at member
      cases member
    · push Not at quiet
      obtain ⟨task,occurrence,rest,firing⟩ := quiet
      rw [firing,tickOn_events] at member
      split at member
      next => cases member
      next vacant =>
        cases List.mem_singleton.mp member
        exact .fired p elapsed draw task occurrence rest firing (by simpa using vacant)

variable [DecidableEq Proc]

theorem complete_spec {p : Proc} {outcome : Outcome} (taken : s.complete p outcome = some t) :
    ∃ run task, s.phase p = .execute run task ∧
      t = { s with phase := Function.update s.phase p (completion run task outcome) } := by
  unfold System.complete at taken
  split at taken
  next run task executing => exact ⟨run,task,executing,(Option.some.inj taken).symm⟩
  next => cases taken

theorem tickStep_spec {p : Proc} {elapsed draw : Nat} (taken : s.tickStep d p elapsed draw = some t) :
    s.clock + elapsed ≤ maxTimestamp * nanos ∧
      t = { s with
        db := (d.tickOn s.clock (s.clock + elapsed) draw s.db (s.tick p)).1
        clock := s.clock + elapsed
        tick := Function.update s.tick p (d.tickOn s.clock (s.clock + elapsed) draw s.db (s.tick p)).2.1
        history := (d.tickOn s.clock (s.clock + elapsed) draw s.db (s.tick p)).2.2 ++ s.history } := by
  obtain ⟨later,waited,rfl⟩ := Option.map_eq_some_iff.mp taken
  obtain ⟨fits,rfl⟩ := advance_spec waited
  exact ⟨fits,rfl⟩

/-- A step keeps the invariant of the store and every row. -/
theorem step_lawful (taken : step d s a = some t) : Lawful s.db t.db := by
  cases a with
  | advance elapsed =>
    obtain ⟨_,rfl⟩ := advance_spec taken
    exact Lawful.refl _
  | enqueue taskId =>
    rw [enqueue_spec taken]
    exact insertPending_lawful ..
  | cancel runId =>
    cases taken
    exact cancelRun_lawful ..
  | proceed p =>
    cases taken
    exact work_lawful ..
  | complete p outcome =>
    obtain ⟨_,_,_,rfl⟩ := complete_spec taken
    exact Lawful.refl _
  | renew p =>
    obtain ⟨_,_,_,_,rfl⟩ := renew_spec taken
    exact renewRun_lawful ..
  | crash p =>
    cases taken
    exact Lawful.refl _
  | tick p elapsed draw =>
    obtain ⟨_,rfl⟩ := tickStep_spec taken
    exact tickOn_lawful ..

theorem step_clock (taken : step d s a = some t) : s.clock ≤ t.clock := by
  cases a with
  | advance elapsed =>
    obtain ⟨_,rfl⟩ := advance_spec taken
    exact Int.le_add_of_nonneg_right (by omega)
  | tick p elapsed draw =>
    obtain ⟨_,rfl⟩ := tickStep_spec taken
    exact Int.le_add_of_nonneg_right (by omega)
  | enqueue taskId => rw [enqueue_spec taken]
  | cancel runId => cases taken; exact Int.le_refl _
  | proceed p => cases taken; exact Int.le_refl _
  | complete p outcome => obtain ⟨_,_,_,rfl⟩ := complete_spec taken; exact Int.le_refl _
  | renew p => obtain ⟨_,_,_,_,rfl⟩ := renew_spec taken; exact Int.le_refl _
  | crash p => cases taken; exact Int.le_refl _

/-- What a step does to a row that is there. -/
inductive RowStep (d : Deployment Proc) (s : System Proc) : Action Proc → Run → Run → Prop where
  | kept (a : Action Proc) (r : Run) : RowStep d s a r r
  | worked (p : Proc) (r r' : Run) (row : WorkRow (d.name p) (timestamp s.clock) s.db (s.phase p) r r') :
    RowStep d s (.proceed p) r r'
  | cancelled (r : Run) (active : r.status.active = true) :
    RowStep d s (.cancel r.id) r (r.cancelAsked (timestamp s.clock))
  | renewed (p : Proc) (run r : Run) (task : Task) (executing : s.phase p = .execute run task)
    (same : r.id = run.id) (held : r.status.held = true) (own : r.leaseOwner = some (d.name p)) :
    RowStep d s (.renew p) r (r.renewed (addI64 (timestamp s.clock) (max 300 1)))

theorem step_row (taken : step d s a = some t) {r r' : Run} (before : r ∈ s.db.runs.rows)
    (after : r' ∈ t.db.runs.rows) (same : r'.id = r.id) : RowStep d s a r r' := by
  have unchanged : r' ∈ s.db.runs.rows → RowStep d s a r r' := fun member => by
    rw [s.db.runs.key_unique member before same]
    exact .kept a r
  have inserted : ∀ taskId now runAfter retryOf trigger,
      r' ∈ (insertPending s.db taskId now runAfter retryOf trigger).1.runs.rows → RowStep d s a r r' := by
    intro taskId now runAfter retryOf trigger member
    rcases insertPending_cases s.db taskId now runAfter retryOf trigger with ⟨_,none⟩ | ⟨_,_,rows,_⟩
    · rw [none] at member
      exact unchanged member
    · rcases (rows r').mp member with old | new
      · exact unchanged old
      · have bound := s.db.runs.bounded r before
        rw [new] at same
        simp only [pendingRun] at same
        omega
  cases a with
  | advance elapsed =>
    obtain ⟨_,rfl⟩ := advance_spec taken
    exact unchanged after
  | enqueue taskId =>
    rw [enqueue_spec taken] at after
    exact inserted _ _ _ _ _ after
  | cancel runId =>
    cases taken
    rw [row_of_update before after same]
    split
    next picked =>
      simp only [Bool.and_eq_true,beq_iff_eq] at picked
      obtain ⟨rfl,active⟩ := picked
      exact .cancelled r active
    next => exact .kept _ r
  | proceed p =>
    cases taken
    exact .worked p r r' (work_row before after same)
  | complete p outcome =>
    obtain ⟨_,_,_,rfl⟩ := complete_spec taken
    exact unchanged after
  | renew p =>
    obtain ⟨run,task,executing,_,rfl⟩ := renew_spec taken
    rw [row_of_update before after same]
    split
    next picked =>
      simp only [Bool.and_eq_true,beq_iff_eq] at picked
      exact .renewed p run r task executing picked.1.1 picked.1.2 picked.2
    next => exact .kept _ r
  | crash p =>
    cases taken
    exact unchanged after
  | tick p elapsed draw =>
    obtain ⟨_,rfl⟩ := tickStep_spec taken
    by_cases quiet : ∀ task occurrence rest, s.tick p ≠ .enqueue task occurrence rest
    · have idle := (tickOn_quiet d s.clock (s.clock + elapsed) draw s.db quiet).1
      exact unchanged (idle ▸ after)
    · push Not at quiet
      obtain ⟨task,occurrence,rest,firing⟩ := quiet
      obtain ⟨runAfter,fired⟩ := tickOn_enqueue d s.clock (s.clock + elapsed) draw s.db task occurrence rest
      simp only [firing,fired] at after
      exact inserted _ _ _ _ _ after

theorem step_history (taken : step d s a = some t) : t.history = logged d s a ++ s.history := by
  cases a with
  | advance elapsed => obtain ⟨_,rfl⟩ := advance_spec taken; rfl
  | enqueue taskId => rw [enqueue_spec taken]; rfl
  | cancel runId =>
    cases taken
    simp only [System.cancel,logged]
    split <;> rfl
  | proceed p => cases taken; rfl
  | complete p outcome => obtain ⟨_,_,_,rfl⟩ := complete_spec taken; rfl
  | renew p => obtain ⟨_,_,_,_,rfl⟩ := renew_spec taken; rfl
  | crash p => cases taken; rfl
  | tick p elapsed draw => obtain ⟨_,rfl⟩ := tickStep_spec taken; rfl

/-- Every row after a step was there before it or has been inserted by it. -/
theorem step_origin (taken : step d s a = some t) {r' : Run} (after : r' ∈ t.db.runs.rows) :
    (∃ r ∈ s.db.runs.rows, r'.id = r.id) ∨ NewRow d s a r' := by
  have kept : r' ∈ s.db.runs.rows → (∃ r ∈ s.db.runs.rows, r'.id = r.id) ∨ NewRow d s a r' :=
    fun member => Or.inl ⟨r',member,rfl⟩
  have inserted : ∀ taskId now runAfter retryOf trigger,
      r' ∈ (insertPending s.db taskId now runAfter retryOf trigger).1.runs.rows →
      r' ∈ s.db.runs.rows ∨ s.db.hasActive taskId = false ∧
        r' = pendingRun taskId now runAfter retryOf trigger (s.db.runs.last + 1) := by
    intro taskId now runAfter retryOf trigger member
    rcases insertPending_cases s.db taskId now runAfter retryOf trigger with ⟨_,none⟩ | ⟨vacant,_,rows,_⟩
    · exact Or.inl (by rwa [none] at member)
    · exact ((rows r').mp member).imp_right fun new => ⟨vacant,new⟩
  cases a with
  | advance elapsed =>
    obtain ⟨_,rfl⟩ := advance_spec taken
    exact kept after
  | enqueue taskId =>
    rw [enqueue_spec taken] at after
    rcases inserted _ _ _ _ _ after with old | ⟨vacant,rfl⟩
    · exact kept old
    · exact Or.inr (.manual taskId vacant)
  | cancel runId =>
    cases taken
    exact Or.inl (origin_of_update after)
  | proceed p =>
    cases taken
    rcases work_origin after with old | ⟨run,task,runAfter,phase,vacant,rfl⟩
    · exact Or.inl old
    · exact Or.inr (.retried p run task runAfter phase vacant)
  | complete p outcome =>
    obtain ⟨_,_,_,rfl⟩ := complete_spec taken
    exact kept after
  | renew p =>
    obtain ⟨run,task,executing,_,rfl⟩ := renew_spec taken
    exact Or.inl (origin_of_update after)
  | crash p =>
    cases taken
    exact kept after
  | tick p elapsed draw =>
    obtain ⟨_,rfl⟩ := tickStep_spec taken
    by_cases quiet : ∀ task occurrence rest, s.tick p ≠ .enqueue task occurrence rest
    · have idle := (tickOn_quiet d s.clock (s.clock + elapsed) draw s.db quiet).1
      exact kept (idle ▸ after)
    · push Not at quiet
      obtain ⟨task,occurrence,rest,firing⟩ := quiet
      obtain ⟨runAfter,fired⟩ := tickOn_enqueue d s.clock (s.clock + elapsed) draw s.db task occurrence rest
      simp only [firing,fired] at after
      rcases inserted _ _ _ _ _ after with old | ⟨vacant,rfl⟩
      · exact kept old
      · exact Or.inr (.fired p elapsed draw task occurrence rest runAfter firing vacant)

theorem step_tasks (taken : step d s a = some t) : t.db.tasks = s.db.tasks ∨
    ∃ p run task outcome, a = .proceed p ∧ s.phase p = .record run task outcome ∧
      t.db = recordRun s.db task.id outcome.httpStatus outcome.error (timestamp s.clock) := by
  cases a with
  | advance elapsed => obtain ⟨_,rfl⟩ := advance_spec taken; exact Or.inl rfl
  | enqueue taskId =>
    rw [enqueue_spec taken]
    exact Or.inl (insertPending_tasks ..)
  | cancel runId => cases taken; exact Or.inl rfl
  | proceed p =>
    cases taken
    by_cases quiet : ∀ run task outcome, s.phase p ≠ .record run task outcome
    · exact Or.inl (work_tasks quiet)
    · push Not at quiet
      obtain ⟨run,task,outcome,recording⟩ := quiet
      exact Or.inr ⟨p,run,task,outcome,rfl,recording,by simp only [System.proceed,recording,work]⟩
  | complete p outcome => obtain ⟨_,_,_,rfl⟩ := complete_spec taken; exact Or.inl rfl
  | renew p => obtain ⟨_,_,_,_,rfl⟩ := renew_spec taken; exact Or.inl rfl
  | crash p => cases taken; exact Or.inl rfl
  | tick p elapsed draw =>
    obtain ⟨_,rfl⟩ := tickStep_spec taken
    by_cases quiet : ∀ task occurrence rest, s.tick p ≠ .enqueue task occurrence rest
    · exact Or.inl (by rw [(tickOn_quiet d s.clock (s.clock + elapsed) draw s.db quiet).1])
    · push Not at quiet
      obtain ⟨task,occurrence,rest,firing⟩ := quiet
      obtain ⟨runAfter,fired⟩ := tickOn_enqueue d s.clock (s.clock + elapsed) draw s.db task occurrence rest
      rw [firing,fired]
      exact Or.inl (insertPending_tasks ..)

/-- What recording a run leaves of a task. -/
def Recorded (before after : TaskRow) : Prop :=
  after = { before with
    lastRunAt := after.lastRunAt, lastStatus := after.lastStatus, lastError := after.lastError }

theorem Recorded.refl (T : TaskRow) : Recorded T T := rfl

theorem mem_recordRun {db : Db} {id : Int} {status : Option Int} {error : Option String} {now : Int}
    {T' : TaskRow} : T' ∈ (recordRun db id status error now).tasks.rows ↔
      ∃ T ∈ db.tasks.rows, T' = if T.id == id then T.recorded status error now else T := by
  have keeps : ∀ T : TaskRow, (T.recorded status error now).id = T.id := fun _ => rfl
  exact Table.mem_update _ keeps

theorem recordRun_recorded (db : Db) (id : Int) (status : Option Int) (error : Option String) (now : Int) :
    Table.Evolves Recorded db.tasks (recordRun db id status error now).tasks := by
  have keeps : ∀ T : TaskRow, (T.recorded status error now).id = T.id := fun _ => rfl
  exact Table.evolves_update _ keeps Recorded.refl fun _ _ => rfl

theorem step_recorded (taken : step d s a = some t) : Table.Evolves Recorded s.db.tasks t.db.tasks ∧
    t.db.tasks.last = s.db.tasks.last := by
  rcases step_tasks taken with same | ⟨p,run,task,outcome,_,_,same⟩
  · rw [same]
    exact ⟨Table.Evolves.refl Recorded.refl _,rfl⟩
  · rw [same]
    exact ⟨recordRun_recorded ..,rfl⟩

/-- How a worker gets from one phase to the next. -/
inductive PhaseStep (d : Deployment Proc) (s : System Proc) (q : Proc) : Action Proc → Phase → Prop where
  | stayed (a : Action Proc) : PhaseStep d s q a (s.phase q)
  | worked : PhaseStep d s q (.proceed q) (work (d.name q) q (timestamp s.clock) s.db (s.phase q)).2.1
  | completed (run : Run) (task : Task) (outcome : Outcome) (executing : s.phase q = .execute run task) :
    PhaseStep d s q (.complete q outcome) (completion run task outcome)
  | crashed : PhaseStep d s q (.crash q) .recover

theorem step_phase (taken : step d s a = some t) (q : Proc) : PhaseStep d s q a (t.phase q) := by
  cases a with
  | advance elapsed => obtain ⟨_,rfl⟩ := advance_spec taken; exact .stayed _
  | enqueue taskId => rw [enqueue_spec taken]; exact .stayed _
  | cancel runId => cases taken; exact .stayed _
  | proceed p =>
    cases taken
    by_cases same : q = p
    · subst same
      simpa [System.proceed] using PhaseStep.worked (d := d) (s := s) (q := q)
    · simpa [System.proceed,same] using PhaseStep.stayed (d := d) (s := s) (q := q) (.proceed p)
  | complete p outcome =>
    obtain ⟨run,task,executing,rfl⟩ := complete_spec taken
    by_cases same : q = p
    · subst same
      simpa using PhaseStep.completed (d := d) (s := s) (q := q) run task outcome executing
    · simpa [same] using PhaseStep.stayed (d := d) (s := s) (q := q) (.complete p outcome)
  | renew p => obtain ⟨_,_,_,_,rfl⟩ := renew_spec taken; exact .stayed _
  | crash p =>
    cases taken
    by_cases same : q = p
    · subst same
      simpa [System.crash] using PhaseStep.crashed (d := d) (s := s) (q := q)
    · simpa [System.crash,same] using PhaseStep.stayed (d := d) (s := s) (q := q) (.crash p)
  | tick p elapsed draw => obtain ⟨_,rfl⟩ := tickStep_spec taken; exact .stayed _

theorem step_run (taken : step d s a = some t) {q : Proc} {run : Run} (holds : (t.phase q).run = some run) :
    (s.phase q).run = some run ∨ ∃ row, a = .proceed q ∧ s.phase q = .claim ∧
      s.db.claimCandidate (timestamp s.clock) = some row ∧
      run = runFields (row.leasedBy (d.name q) (addI64 (timestamp s.clock) (max 300 1))) := by
  have moved := step_phase taken q
  generalize t.phase q = phase at moved holds
  cases moved with
  | stayed => exact Or.inl holds
  | worked =>
    rcases work_run holds with kept | ⟨row,claiming,best,same⟩
    · exact Or.inl kept
    · exact Or.inr ⟨row,rfl,claiming,best,same⟩
  | completed run' task outcome executing =>
    rw [executing]
    unfold completion at holds
    split at holds <;> exact Or.inl holds
  | crashed => cases holds

theorem step_task (taken : step d s a = some t) {q : Proc} {task : Task} (reads : (t.phase q).task = some task) :
    (s.phase q).task = some task ∨ ∃ run, a = .proceed q ∧ s.phase q = .load run ∧
      s.db.get run.taskId = some task := by
  have moved := step_phase taken q
  generalize t.phase q = phase at moved reads
  cases moved with
  | stayed => exact Or.inl reads
  | worked =>
    rcases work_task reads with kept | ⟨run,loading,found⟩
    · exact Or.inl kept
    · exact Or.inr ⟨run,rfl,loading,found⟩
  | completed run' task' outcome executing =>
    rw [executing]
    unfold completion at reads
    split at reads <;> exact Or.inl reads
  | crashed => cases reads

/-- The row of a claim and the history after it. -/
theorem claim_step {p : Proc} {row : Run} (claiming : s.phase p = .claim)
    (best : s.db.claimCandidate (timestamp s.clock) = some row) (taken : step d s (.proceed p) = some t) :
    t.history = .claimed p row.id :: s.history ∧ ∀ r' ∈ t.db.runs.rows, r'.id = row.id →
      r' = row.leasedBy (d.name p) (addI64 (timestamp s.clock) (max 300 1)) := by
  cases taken
  have worked := @work_claim_found _ (d.name p) p _ _ _ best
  simp only [System.proceed,claiming,worked]
  refine ⟨rfl,fun r' after same => ?_⟩
  rcases claimRun_cases s.db (d.name p) 300 (timestamp s.clock) with ⟨none,_⟩ | ⟨row',member,best',_,rows,_⟩
  · rw [best] at none
    cases none
  · cases best.symm.trans best'
    simpa using rows row member r' after same

/-- A run read from the table and its row now. -/
structure SameRun (run r : Run) : Prop where
  id : r.id = run.id
  taskId : r.taskId = run.taskId
  retryOf : r.retryOf = run.retryOf
  trigger : r.trigger = run.trigger

/-- A task read from the table and its row now: recording a run is what may lie
between them. -/
def Snapshot (T : TaskRow) (task : Task) : Prop :=
  task = { taskFromRow T with
    lastRunAt := task.lastRunAt, lastStatus := task.lastStatus, lastError := task.lastError }

omit [DecidableEq Proc] in
theorem snapshot_recorded {T T' : TaskRow} {task : Task} (recorded : Recorded T T')
    (snapshot : Snapshot T task) : Snapshot T' task := by
  rw [Snapshot,recorded]
  exact snapshot

/-- What the workers and the ticks have read is in the tables. -/
structure Known (s : System Proc) : Prop where
  run : ∀ q run, (s.phase q).run = some run → ∃ r ∈ s.db.runs.rows, SameRun run r
  task : ∀ q run task, (s.phase q).run = some run → (s.phase q).task = some task → task.id = run.taskId
  loaded : ∀ q task, (s.phase q).task = some task → ∃ T ∈ s.db.tasks.rows, Snapshot T task
  listed : ∀ q, ∀ task ∈ (s.tick q).tasks, ∃ T ∈ s.db.tasks.rows, Snapshot T task

omit [DecidableEq Proc] in
theorem known_init (tasks : Table TaskRow TaskRow.id) (clock : Int) :
    Known (System.init tasks clock : System Proc) :=
  ⟨fun _ _ holds => (nomatch holds),fun _ _ _ holds => (nomatch holds),fun _ _ reads => (nomatch reads),
    fun _ _ member => (nomatch member)⟩

theorem get_snapshot {db : Db} {id : Int} {task : Task} (found : db.get id = some task) :
    task.id = id ∧ ∃ T ∈ db.tasks.rows, Snapshot T task := by
  obtain ⟨T,there,rfl⟩ := Option.map_eq_some_iff.mp found
  obtain ⟨member,keyed⟩ := (Table.find_eq_some _).mp there
  exact ⟨keyed,T,member,rfl⟩

theorem snapshot_step (taken : step d s a = some t) {task : Task}
    (read : ∃ T ∈ s.db.tasks.rows, Snapshot T task) : ∃ T ∈ t.db.tasks.rows, Snapshot T task := by
  obtain ⟨T,there,snapshot⟩ := read
  obtain ⟨T',after,_,recorded⟩ := (step_recorded taken).1.moved T there
  exact ⟨T',after,snapshot_recorded recorded snapshot⟩

theorem step_tick (taken : step d s a = some t) (q : Proc) : t.tick q = s.tick q ∨ t.tick q = .list ∨
    ∃ elapsed draw, a = .tick q elapsed draw ∧ t.clock = s.clock + elapsed ∧
      t.tick q = (d.tickOn s.clock (s.clock + elapsed) draw s.db (s.tick q)).2.1 := by
  cases a with
  | advance elapsed => obtain ⟨_,rfl⟩ := advance_spec taken; exact Or.inl rfl
  | enqueue taskId => rw [enqueue_spec taken]; exact Or.inl rfl
  | cancel runId => cases taken; exact Or.inl rfl
  | proceed p => cases taken; exact Or.inl rfl
  | complete p outcome => obtain ⟨_,_,_,rfl⟩ := complete_spec taken; exact Or.inl rfl
  | renew p => obtain ⟨_,_,_,_,rfl⟩ := renew_spec taken; exact Or.inl rfl
  | crash p =>
    cases taken
    by_cases same : q = p
    · subst same
      exact Or.inr (Or.inl (by simp [System.crash]))
    · exact Or.inl (by simp [System.crash,same])
  | tick p elapsed draw =>
    obtain ⟨_,rfl⟩ := tickStep_spec taken
    by_cases same : q = p
    · subst same
      exact Or.inr (Or.inr ⟨elapsed,draw,rfl,rfl,by simp⟩)
    · exact Or.inl (by simp [same])

theorem known_step (known : Known s) (taken : step d s a = some t) : Known t := by
  have lawful := step_lawful taken
  have carried : ∀ run r, r ∈ s.db.runs.rows → SameRun run r → ∃ r' ∈ t.db.runs.rows, SameRun run r' := by
    intro run r member same
    obtain ⟨r',there,_,moved⟩ := lawful.evolves.moved r member
    exact ⟨r',there,moved.id.trans same.id,moved.taskId.trans same.taskId,
      moved.retryOf.trans same.retryOf,moved.trigger.trans same.trigger⟩
  refine ⟨fun q run holds => ?_,fun q run task holds reads => ?_,fun q task reads => ?_,
    fun q task member => ?_⟩
  · rcases step_run taken holds with old | ⟨row,_,_,best,rfl⟩
    · obtain ⟨r,member,same⟩ := known.run q run old
      exact carried run r member same
    · exact carried _ row (candidate_spec best).1 ⟨rfl,rfl,rfl,rfl⟩
  · rcases step_task taken reads with old | ⟨run',rfl,loading,found⟩
    · rcases step_run taken holds with held | ⟨row,_,claiming,_,_⟩
      · exact known.task q run task held old
      · rw [claiming] at old
        cases old
    · rcases step_run taken holds with held | ⟨row,_,claiming,_,_⟩
      · rw [loading] at held
        cases held
        exact (get_snapshot found).1
      · rw [loading] at claiming
        cases claiming
  · refine snapshot_step taken ?_
    rcases step_task taken reads with old | ⟨run',_,_,found⟩
    · exact known.loaded q task old
    · exact (get_snapshot found).2
  · refine snapshot_step taken ?_
    rcases step_tick taken q with same | same | ⟨elapsed,draw,_,_,same⟩
    · exact known.listed q task (same ▸ member)
    · rw [same] at member
      cases member
    · rw [same] at member
      rcases tickOn_tasks member with old | fresh
      · exact known.listed q task old
      · obtain ⟨T,there,rfl⟩ := List.mem_map.mp fresh
        exact ⟨T,there,rfl⟩

/-- The rows and the phases of a reachable system. -/
structure Sound (s : System Proc) : Prop where
  rows : WellFormed s.db
  known : Known s

omit [DecidableEq Proc] in
theorem sound_init (tasks : Table TaskRow TaskRow.id) (clock : Int) :
    Sound (System.init tasks clock : System Proc) := ⟨wellFormed_empty tasks,known_init tasks clock⟩

theorem sound_step (sound : Sound s) (taken : step d s a = some t) : Sound t :=
  ⟨(step_lawful taken).wellFormed sound.rows,known_step sound.known taken⟩

theorem sound_reachable {tasks : Table TaskRow TaskRow.id} {clock : Int}
    (reach : Transition.Reachable (step d) (System.init tasks clock) s) : Sound s :=
  reach.invariant (fun _ _ _ sound _ taken => sound_step sound taken) (sound_init tasks clock)

end Qdrust.Scheduler
