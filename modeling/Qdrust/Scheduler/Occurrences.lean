import Qdrust.Scheduler.Steps

/-! Which occurrences of a schedule become runs. All that is remembered of a
firing is the last run of the task, which a completion writes when it records. -/
namespace Qdrust.Scheduler
open Library Store

variable {Proc : Type}

/-- The task looks back to its last run, at or after `x`. -/
def LastRun (T : TaskRow) (x : Int) : Prop :=
  ∃ ts, T.lastRunAt = some ts ∧ 0 < ts ∧ ts ≤ maxTimestamp ∧ x ≤ ts * nanos

/-- The task of a run has been recorded since the run was created. -/
def RecordedSince (s : System Proc) (r : Run) : Prop :=
  ∃ T ∈ s.db.tasks.rows, T.id = r.taskId ∧ LastRun T (r.createdAt * nanos)

/-- The steps that end a run without recording it. -/
def EndsUnrecorded (s : System Proc) (a : Action Proc) (r : Run) : Prop :=
  match a with
  | .cancel runId => r.id = runId ∧ r.status = .pending
  | .proceed p =>
    match s.phase p with
    | .recover => r.status.held = true ∧ sqlLe r.leaseExpiresAt (timestamp s.clock) = true ∧
        r.cancelRequested = true
    | .finish run _ outcome => outcome.cancelled = true ∧ r.id = run.id ∧ r.status.held = true
    | _ => False
  | _ => False

/-- The conditions under which occurrences and runs correspond. -/
structure Orderly (d : Deployment Proc) (s : System Proc) (a : Action Proc) : Prop where
  /-- A scheduled run does not end before its task is recorded. -/
  ended : ∀ r ∈ s.db.runs.rows, r.trigger = "scheduled" → EndsUnrecorded s a r → RecordedSince s r
  /-- A tick enqueues a task whose last run it has seen. -/
  fresh : ∀ p elapsed draw task occurrence rest, a = .tick p elapsed draw →
    s.tick p = .enqueue task occurrence rest → s.db.hasActive task.id = false →
    ∀ T ∈ s.db.tasks.rows, T.id = task.id → T.lastRunAt = task.lastRunAt
  /-- A scheduled run is recorded before the next occurrence after its own, any
  other run while its task is not due. -/
  prompt : ∀ p run task outcome, a = .proceed p → s.phase p = .record run task outcome →
    ∀ T ∈ s.db.tasks.rows, T.id = task.id → T.disabled = false →
    ∀ schedule, d.cron.fromStr T.cron = some schedule →
    ∀ o, d.cron.Occurs schedule (zone d.cron (taskFromRow T) d.defaultTz) o →
      since (taskFromRow T) d.interval s.clock < o → o ≤ s.clock →
      ∃ own, .fired T.id own run.id ∈ s.history ∧ o ≤ own

theorem since_lastRun {T : TaskRow} {ts : Int} (ran : T.lastRunAt = some ts) (positive : 0 < ts)
    (fits : ts ≤ maxTimestamp) (interval now : Int) : since (taskFromRow T) interval now = ts * nanos := by
  have low : minTimestamp ≤ ts := by
    have : minTimestamp ≤ 0 := by decide
    omega
  simp [since,taskFromRow,ran,Option.filter,positive,timestampOpt,low,fits]

/-- The instant a task looks back to does not move back with the clock. -/
theorem since_mono (task : Task) (interval : Int) {now later : Int} (order : now ≤ later) :
    since task interval now ≤ since task interval later := by
  unfold since
  cases (task.lastRunAt.filter (0 < ·)).bind timestampOpt with
  | none => simpa using order
  | some x => simp

/-- A task with the same last run looks back to the same instant or, without
one, to an interval before the clock. -/
theorem since_same {task other : Task} (same : task.lastRunAt = other.lastRunAt) (interval now : Int) :
    since task interval now = since other interval now := by
  simp only [since,same]

theorem whole_le {o clock : Int} (whole : nanos ∣ o) (past : o ≤ clock) : o ≤ timestamp clock * nanos := by
  obtain ⟨k,rfl⟩ := whole
  unfold timestamp nanos at *
  omega

/-- The zone and the schedule of a task are not what recording changes. -/
theorem snapshot_zone {T : TaskRow} {task : Task} (snapshot : Snapshot T task) (cron : Cron)
    (defaultTz : cron.Tz) : zone cron task defaultTz = zone cron (taskFromRow T) defaultTz ∧
      task.cron = T.cron ∧ task.id = T.id := by
  rw [snapshot]
  exact ⟨rfl,rfl,rfl⟩

theorem upcoming_spec {cron : Cron} {task : Task} {interval : Int} {defaultTz : cron.Tz} {again o : Int}
    (found : upcoming cron task interval defaultTz again = some o) :
    ∃ schedule, cron.fromStr task.cron = some schedule ∧
      cron.after schedule (zone cron task defaultTz) (since task interval again) = some o := by
  unfold upcoming at found
  split at found
  next => cases found
  next schedule parsed => exact ⟨schedule,parsed,found⟩

theorem due_upcoming {cron : Cron} {task : Task} {interval : Int} {defaultTz : cron.Tz} {now again o : Int}
    (found : upcoming cron task interval defaultTz again = some o)
    (fires : due cron task interval defaultTz now again = true) : o ≤ now := by
  unfold due at fires
  rw [found] at fires
  split at fires
  · cases fires
  · simpa using fires

/-- What is known of an occurrence that has fired. -/
structure Fired (d : Deployment Proc) (s : System Proc) (id o run : Int) : Prop where
  whole : nanos ∣ o
  row : ∃ r ∈ s.db.runs.rows, r.id = run ∧ r.taskId = id ∧ r.trigger = "scheduled" ∧
    o ≤ r.createdAt * nanos ∧ (r.status.active = true ∨ ∃ T ∈ s.db.tasks.rows, T.id = id ∧ LastRun T o)
  first : ∀ T ∈ s.db.tasks.rows, T.id = id → ∀ schedule, d.cron.fromStr T.cron = some schedule →
    ∀ o', d.cron.Occurs schedule (zone d.cron (taskFromRow T) d.defaultTz) o' → o' < o →
      o' ≤ since (taskFromRow T) d.interval s.clock

/-- The completions that have recorded their run. -/
def Phase.recordedRun : Phase → Option Run
  | .trace run _ _ => some run
  | .finish run _ outcome => if outcome.cancelled then none else some run
  | _ => none

/-- The invariant of orderly runs. -/
structure Occurring (d : Deployment Proc) (s : System Proc) : Prop where
  clock : nanos ≤ s.clock ∧ s.clock ≤ maxTimestamp * nanos
  created : ∀ r ∈ s.db.runs.rows, 1 ≤ r.createdAt ∧ r.createdAt ≤ timestamp s.clock
  checked : ∀ q task occurrence rest, s.tick q = .enqueue task occurrence rest →
    ∃ now again, now ≤ again ∧ again ≤ s.clock ∧
      upcoming d.cron task d.interval d.defaultTz again = some occurrence ∧
      due d.cron task d.interval d.defaultTz now again = true
  fired : ∀ id o run, .fired id o run ∈ s.history → Fired d s id o run
  unique : ∀ id o run run', .fired id o run ∈ s.history → .fired id o run' ∈ s.history → run = run'
  recorded : ∀ p run, (s.phase p).recordedRun = some run → ∀ r ∈ s.db.runs.rows, r.id = run.id →
    RecordedSince s r
  logged : ∀ r ∈ s.db.runs.rows, r.trigger = "scheduled" → ∃ o, .fired r.taskId o r.id ∈ s.history

theorem timestamp_mono {a b : Int} (order : a ≤ b) : timestamp a ≤ timestamp b :=
  Int.ediv_le_ediv (by decide) order

variable {d : Deployment Proc} {s t : System Proc} {a : Action Proc}

theorem recorded_lastRun (bounds : nanos ≤ s.clock ∧ s.clock ≤ maxTimestamp * nanos) {T : TaskRow}
    (ran : T.lastRunAt = some (timestamp s.clock)) {x : Int} (whole : nanos ∣ x) (past : x ≤ s.clock) :
    LastRun T x := by
  refine ⟨_,ran,?_,?_,whole_le whole past⟩
  · unfold timestamp nanos at *
    omega
  · unfold timestamp nanos at *
    omega

theorem recordedRun_run {phase : Phase} {run : Run} (holds : phase.recordedRun = some run) :
    phase.run = some run := by
  cases phase with
  | trace => exact holds
  | finish run' task outcome =>
    simp only [Phase.recordedRun] at holds
    split at holds
    · cases holds
    · exact holds
  | _ => cases holds

/-- A worker records its run on the way to the calls that follow. -/
theorem work_recorded {name : String} {p : Proc} {now : Int} {db : Db} {phase : Phase} {run : Run}
    (holds : (work name p now db phase).2.1.recordedRun = some run) :
    phase.recordedRun = some run ∨ ∃ task outcome, phase = .record run task outcome := by
  cases phase with
  | record run' task outcome =>
    cases outcome <;> cases holds <;> exact Or.inr ⟨task,_,rfl⟩
  | trace run' task outcome =>
    simp only [work,Phase.recordedRun] at holds
    split at holds
    · cases holds
    · exact Or.inl holds
  | claim => simp only [work] at holds; split at holds <;> cases holds
  | start run' => simp only [work] at holds; split at holds <;> cases holds
  | load run' => simp only [work] at holds; split at holds <;> cases holds
  | count run' task => simp only [work] at holds; split at holds <;> cases holds
  | finish run' task outcome =>
    simp only [work,afterFinish] at holds
    split at holds
    · cases holds
    · cases holds
    · split at holds
      · cases holds
      · split at holds <;> cases holds
  | recover => cases holds
  | execute run' task => cases holds
  | log run' text => cases holds
  | schedule run' task => cases holds

variable [DecidableEq Proc]

theorem clock_step (bounds : nanos ≤ s.clock ∧ s.clock ≤ maxTimestamp * nanos)
    (taken : step d s a = some t) : nanos ≤ t.clock ∧ t.clock ≤ maxTimestamp * nanos := by
  have later := step_clock taken
  refine ⟨Int.le_trans bounds.1 later,?_⟩
  cases a with
  | advance elapsed => obtain ⟨fits,rfl⟩ := advance_spec taken; exact fits
  | tick p elapsed draw => obtain ⟨fits,rfl⟩ := tickStep_spec taken; exact fits
  | enqueue taskId => rw [enqueue_spec taken]; exact bounds.2
  | cancel runId => cases taken; exact bounds.2
  | proceed p => cases taken; exact bounds.2
  | complete p outcome => obtain ⟨_,_,_,rfl⟩ := complete_spec taken; exact bounds.2
  | renew p => obtain ⟨_,_,_,_,rfl⟩ := renew_spec taken; exact bounds.2
  | crash p => cases taken; exact bounds.2

/-- What a step does to a task row: nothing, or it records a run at the clock. -/
theorem task_row (taken : step d s a = some t) {T T' : TaskRow} (before : T ∈ s.db.tasks.rows)
    (after : T' ∈ t.db.tasks.rows) (same : T'.id = T.id) : T' = T ∨
      (T'.lastRunAt = some (timestamp s.clock) ∧ ∃ p run task outcome, a = .proceed p ∧
        s.phase p = .record run task outcome ∧ task.id = T.id) := by
  rcases step_tasks taken with kept | ⟨p,run,task,outcome,acts,recording,written⟩
  · rw [kept] at after
    exact Or.inl (s.db.tasks.key_unique after before same)
  · rw [written] at after
    obtain ⟨old,there,rfl⟩ := mem_recordRun.mp after
    have keyed : (if old.id == task.id then old.recorded outcome.httpStatus outcome.error (timestamp s.clock)
        else old).id = old.id := by
      split <;> rfl
    cases s.db.tasks.key_unique there before (keyed.symm.trans same)
    by_cases mine : T.id = task.id
    · refine Or.inr ⟨by simp [mine,TaskRow.recorded],p,run,task,outcome,acts,recording,mine.symm⟩
    · exact Or.inl (by simp [mine])

theorem lastRun_step (bounds : nanos ≤ s.clock ∧ s.clock ≤ maxTimestamp * nanos)
    (taken : step d s a = some t) {T : TaskRow} (before : T ∈ s.db.tasks.rows) {x : Int}
    (whole : nanos ∣ x) (past : x ≤ s.clock) (ran : LastRun T x) :
    ∃ T' ∈ t.db.tasks.rows, T'.id = T.id ∧ LastRun T' x := by
  obtain ⟨T',after,same,_⟩ := (step_recorded taken).1.moved T before
  refine ⟨T',after,same,?_⟩
  rcases task_row taken before after same with rfl | ⟨recorded,_⟩
  · exact ran
  · exact recorded_lastRun bounds recorded whole past

/-- No step makes a task look back to before an instant it has passed. -/
theorem since_step (bounds : nanos ≤ s.clock ∧ s.clock ≤ maxTimestamp * nanos)
    (taken : step d s a = some t) {T T' : TaskRow} (before : T ∈ s.db.tasks.rows)
    (after : T' ∈ t.db.tasks.rows) (same : T'.id = T.id) {x y : Int} (whole : nanos ∣ y)
    (past : y ≤ s.clock) (order : x ≤ y) (passed : x ≤ since (taskFromRow T) d.interval s.clock) :
    x ≤ since (taskFromRow T') d.interval t.clock := by
  rcases task_row taken before after same with rfl | ⟨recorded,_⟩
  · exact Int.le_trans passed (since_mono _ _ (step_clock taken))
  · obtain ⟨ts,ran,positive,fits,reached⟩ := recorded_lastRun bounds recorded whole past
    rw [since_lastRun ran positive fits]
    exact Int.le_trans order reached

theorem recorded_row {p : Proc} (taken : step d s (.proceed p) = some t) {run : Run} {task : Task} {outcome : Outcome}
    (recording : s.phase p = .record run task outcome) {T' : TaskRow} (after : T' ∈ t.db.tasks.rows)
    (named : T'.id = task.id) : T'.lastRunAt = some (timestamp s.clock) := by
  cases taken
  simp only [System.proceed,recording,work] at after
  obtain ⟨T,_,rfl⟩ := mem_recordRun.mp after
  split at named
  next mine => simp [mine,TaskRow.recorded]
  next other => exact absurd (by simpa using named) other

/-- How an active run ends. -/
theorem ended_step (taken : step d s a = some t) {r r' : Run} (before : r ∈ s.db.runs.rows)
    (after : r' ∈ t.db.runs.rows) (same : r'.id = r.id) (active : r.status.active = true)
    (ended : r'.status.active = false) : EndsUnrecorded s a r ∨
      ∃ p run, a = .proceed p ∧ (s.phase p).recordedRun = some run ∧ r.id = run.id := by
  cases step_row taken before after same with
  | kept => cases active.symm.trans ended
  | worked p _ _ row =>
    generalize phase : s.phase p = current at row
    cases row with
    | kept => cases active.symm.trans ended
    | recovered _ held expired =>
      cases flag : r.cancelRequested with
      | true => exact Or.inl (by simp [EndsUnrecorded,phase,held,expired,flag])
      | false => simp [Run.recovered,flag,RunStatus.active] at ended
    | claimed => simp [Run.leasedBy,RunStatus.active] at ended
    | started => simp [Run.started,RunStatus.active] at ended
    | finished run task outcome _ mine held =>
      cases phrase : outcome.cancelled with
      | true => exact Or.inl (by simp [EndsUnrecorded,phase,phrase,mine,held])
      | false => exact Or.inr ⟨p,run,rfl,by simp [phase,Phase.recordedRun,phrase],mine⟩
  | cancelled =>
    refine Or.inl ⟨rfl,?_⟩
    by_contra other
    simp only [Run.cancelAsked,if_neg other] at ended
    rw [active] at ended
    cases ended
  | renewed => cases active.symm.trans ended

theorem created_step (inv : Occurring d s) (taken : step d s a = some t) :
    ∀ r ∈ t.db.runs.rows, 1 ≤ r.createdAt ∧ r.createdAt ≤ timestamp t.clock := by
  intro r' after
  have later := timestamp_mono (step_clock taken)
  rcases step_origin taken after with ⟨r,before,same⟩ | new
  · rw [((step_lawful taken).evolves.related before after same).createdAt]
    obtain ⟨low,high⟩ := inv.created r before
    exact ⟨low,Int.le_trans high later⟩
  · have now : r'.createdAt = timestamp s.clock := by cases new <;> rfl
    have low : 1 ≤ timestamp s.clock := by
      have bound := inv.clock.1
      unfold timestamp nanos at *
      omega
    rw [now]
    exact ⟨low,later⟩

theorem checked_step (inv : Occurring d s) (taken : step d s a = some t) :
    ∀ q task occurrence rest, t.tick q = .enqueue task occurrence rest →
    ∃ now again, now ≤ again ∧ again ≤ t.clock ∧
      upcoming d.cron task d.interval d.defaultTz again = some occurrence ∧
      due d.cron task d.interval d.defaultTz now again = true := by
  intro q task occurrence rest firing
  rcases step_tick taken q with same | same | ⟨elapsed,draw,rfl,clock,same⟩
  · obtain ⟨now,again,order,past,found⟩ := inv.checked q task occurrence rest (same ▸ firing)
    exact ⟨now,again,order,Int.le_trans past (step_clock taken),found⟩
  · rw [same] at firing
    cases firing
  · exact ⟨s.clock,s.clock + elapsed,by omega,by omega,tickOn_to_enqueue (same ▸ firing)⟩

omit [DecidableEq Proc] in
theorem created_past (inv : Occurring d s) {r : Run} (member : r ∈ s.db.runs.rows) :
    r.createdAt * nanos ≤ s.clock := by
  have bound := (inv.created r member).2
  unfold timestamp nanos at *
  omega

theorem recordedSince_step (inv : Occurring d s) (taken : step d s a = some t) {r r' : Run}
    (before : r ∈ s.db.runs.rows) (after : r' ∈ t.db.runs.rows) (same : r'.id = r.id)
    (recorded : RecordedSince s r) : RecordedSince t r' := by
  have moved := (step_lawful taken).evolves.related before after same
  obtain ⟨T,there,owner,ran⟩ := recorded
  have past := created_past inv before
  obtain ⟨T',after',same',ran'⟩ := lastRun_step inv.clock taken there ⟨_,Int.mul_comm _ _⟩ past ran
  exact ⟨T',after',by rw [same',owner,moved.taskId],by rw [moved.createdAt]; exact ran'⟩

theorem recorded_step (sound : Sound s) (inv : Occurring d s) (taken : step d s a = some t) :
    ∀ p run, (t.phase p).recordedRun = some run → ∀ r ∈ t.db.runs.rows, r.id = run.id →
      RecordedSince t r := by
  intro p run holds r' after named
  have carried : (s.phase p).recordedRun = some run → RecordedSince t r' := by
    intro old
    obtain ⟨r,before,row⟩ := sound.known.run p run (recordedRun_run old)
    exact recordedSince_step inv taken before after (named.trans row.id.symm) (inv.recorded p run old r before row.id)
  have moved := step_phase taken p
  generalize t.phase p = phase at moved holds
  cases moved with
  | stayed => exact carried holds
  | worked =>
    rcases work_recorded holds with old | ⟨task,outcome,recording⟩
    · exact carried old
    · have mine : (s.phase p).run = some run := by rw [recording]; rfl
      have reads : (s.phase p).task = some task := by rw [recording]; rfl
      obtain ⟨r,before,row⟩ := sound.known.run p run mine
      obtain ⟨T,there,snapshot⟩ := sound.known.loaded p task reads
      obtain ⟨T',after',keyed,_⟩ := (step_recorded taken).1.moved T there
      have id : T'.id = task.id := keyed.trans (by rw [snapshot]; rfl)
      have moved := (step_lawful taken).evolves.related before after (named.trans row.id.symm)
      refine ⟨T',after',?_,?_⟩
      · rw [id,sound.known.task p run task mine reads,moved.taskId,row.taskId]
      · rw [moved.createdAt]
        exact recorded_lastRun inv.clock (recorded_row taken recording after' id) ⟨_,Int.mul_comm _ _⟩
          (created_past inv before)
  | completed run' task outcome executing =>
    unfold completion at holds
    split at holds
    next phrase => simp [Phase.recordedRun,phrase] at holds
    next => cases holds
  | crashed => cases holds

theorem logged_step (inv : Occurring d s) (taken : step d s a = some t) :
    ∀ r ∈ t.db.runs.rows, r.trigger = "scheduled" → ∃ o, .fired r.taskId o r.id ∈ t.history := by
  intro r' after scheduled
  rw [step_history taken]
  rcases step_origin taken after with ⟨r,before,same⟩ | new
  · have moved := (step_lawful taken).evolves.related before after same
    obtain ⟨o,past⟩ := inv.logged r before (moved.trigger.symm.trans scheduled)
    exact ⟨o,List.mem_append_right _ (by rw [moved.taskId,same]; exact past)⟩
  · cases new with
    | manual => simp [pendingRun] at scheduled
    | retried => simp [pendingRun] at scheduled
    | fired p elapsed draw task occurrence rest runAfter firing vacant =>
      exact ⟨occurrence,List.mem_append_left _ (by simp [logged,firing,tickOn_events,vacant,pendingRun])⟩

/-- What is known of a fired occurrence stays known. -/
theorem fired_kept (inv : Occurring d s) (orderly : Orderly d s a) (taken : step d s a = some t)
    {id o run : Int} (past : .fired id o run ∈ s.history) : Fired d t id o run := by
  obtain ⟨whole,⟨r,before,named,owner,scheduled,created,ended⟩,first⟩ := inv.fired id o run past
  have passed : o ≤ s.clock := Int.le_trans created (created_past inv before)
  obtain ⟨r',after,same,moved⟩ := (step_lawful taken).evolves.moved r before
  have carried : ∀ T ∈ s.db.tasks.rows, T.id = id → LastRun T o → ∃ T ∈ t.db.tasks.rows, T.id = id ∧ LastRun T o := by
    intro T there keyed ran
    obtain ⟨T',after',same',ran'⟩ := lastRun_step inv.clock taken there whole passed ran
    exact ⟨T',after',same'.trans keyed,ran'⟩
  refine ⟨whole,⟨r',after,same.trans named,moved.taskId.trans owner,moved.trigger.trans scheduled,
    by rw [moved.createdAt]; exact created,?_⟩,?_⟩
  · cases still : r'.status.active with
    | true => exact Or.inl rfl
    | false =>
      refine Or.inr ?_
      rcases ended with active | ⟨T,there,keyed,ran⟩
      · have recorded : RecordedSince s r := by
          rcases ended_step taken before after same active still with unrecorded | ⟨p,other,_,holds,mine⟩
          · exact orderly.ended r before scheduled unrecorded
          · exact inv.recorded p other holds r before mine
        obtain ⟨T,there,keyed,ts,ran,positive,fits,reached⟩ := recorded
        exact carried T there (keyed.trans owner) ⟨ts,ran,positive,fits,Int.le_trans created reached⟩
      · exact carried T there keyed ran
  · intro T' after' keyed schedule parsed o' occurs earlier
    obtain ⟨recorded,last⟩ := step_recorded taken
    obtain ⟨T,there,same'⟩ := recorded.origin T' after' (last ▸ t.db.tasks.bounded T' after')
    have kept := recorded.related there after' same'.symm
    rw [kept] at parsed occurs
    exact since_step inv.clock taken there after' same'.symm whole passed (Int.le_of_lt earlier)
      (first T there (same'.trans keyed) schedule parsed o' occurs earlier)

/-- The row a tick inserts. -/
theorem fired_row {p : Proc} {elapsed draw : Nat} (taken : step d s (.tick p elapsed draw) = some t)
    {task : Task} {occurrence : Int} {rest : List Task} (firing : s.tick p = .enqueue task occurrence rest)
    (vacant : s.db.hasActive task.id = false) : ∃ runAfter,
      pendingRun task.id (timestamp s.clock) runAfter none "scheduled" (s.db.runs.last + 1) ∈ t.db.runs.rows := by
  obtain ⟨_,rfl⟩ := tickStep_spec taken
  obtain ⟨runAfter,fired⟩ := tickOn_enqueue d s.clock (s.clock + elapsed) draw s.db task occurrence rest
  refine ⟨runAfter,?_⟩
  simp only [firing,fired]
  rcases insertPending_cases s.db task.id (timestamp s.clock) runAfter none "scheduled" with
    ⟨active,_⟩ | ⟨_,_,rows,_⟩
  · rw [vacant] at active
    cases active
  · exact (rows _).mpr (Or.inr rfl)

/-- A tick fires the first occurrence after the last run of its task. -/
theorem fired_new (lawful : d.cron.Lawful) (sound : Sound s) (inv : Occurring d s) (orderly : Orderly d s a)
    (taken : step d s a = some t) {p : Proc} {elapsed draw : Nat} {task : Task} {occurrence : Int}
    {rest : List Task} (acts : a = .tick p elapsed draw) (firing : s.tick p = .enqueue task occurrence rest)
    (vacant : s.db.hasActive task.id = false) : Fired d t task.id occurrence (s.db.runs.last + 1) := by
  obtain ⟨now,again,order,past,found,fires⟩ := inv.checked p task occurrence rest firing
  obtain ⟨schedule,parsed,yields⟩ := upcoming_spec found
  have whole := lawful.whole _ _ _ ⟨_,yields⟩
  have passed : occurrence ≤ s.clock :=
    Int.le_trans (due_upcoming found fires) (Int.le_trans order past)
  refine ⟨whole,?_,?_⟩
  · subst acts
    obtain ⟨runAfter,there⟩ := fired_row taken firing vacant
    exact ⟨_,there,rfl,rfl,rfl,whole_le whole passed,Or.inl rfl⟩
  · intro T after keyed schedule' parsed' o' occurs earlier
    have there : T ∈ s.db.tasks.rows := by
      rcases step_tasks taken with same | ⟨_,_,_,_,acts',_⟩
      · rwa [same] at after
      · rw [acts] at acts'
        cases acts'
    obtain ⟨S,member,snapshot⟩ := sound.known.listed p task (by rw [firing]; exact List.mem_cons_self)
    obtain ⟨zones,crons,ids⟩ := snapshot_zone snapshot d.cron d.defaultTz
    cases s.db.tasks.key_unique member there (ids.symm.trans keyed.symm)
    have last := orderly.fresh p elapsed draw task occurrence rest acts firing vacant T there keyed
    rw [crons,parsed'] at parsed
    cases parsed
    rw [zones] at yields
    have back : o' ≤ since task d.interval again := by
      by_contra later
      obtain ⟨first,yields',least⟩ := lawful.earliest _ _ _ o' occurs (Int.lt_of_not_ge later)
      rw [yields] at yields'
      cases yields'
      omega
    have same : since (taskFromRow T) d.interval t.clock = since task d.interval t.clock := since_same last _ _
    rw [same]
    exact Int.le_trans back (since_mono _ _ (Int.le_trans past (step_clock taken)))

omit [DecidableEq Proc] in
/-- A tick does not fire what has fired. -/
theorem fired_later (lawful : d.cron.Lawful) (inv : Occurring d s) (orderly : Orderly d s a)
    {p : Proc} {elapsed draw : Nat} {task : Task} {occurrence : Int} {rest : List Task}
    (acts : a = .tick p elapsed draw) (firing : s.tick p = .enqueue task occurrence rest)
    (vacant : s.db.hasActive task.id = false) (run : Int) : .fired task.id occurrence run ∉ s.history := by
  intro past
  obtain ⟨_,⟨r,member,_,owner,_,_,ended⟩,_⟩ := inv.fired task.id occurrence run past
  have idle : r.status.active = false := by
    have none := List.any_eq_false.mp vacant r member
    simpa [owner] using none
  rcases ended with active | ⟨T,there,keyed,ts,ran,positive,fits,reached⟩
  · rw [active] at idle
    cases idle
  · obtain ⟨now,again,_,_,found,_⟩ := inv.checked p task occurrence rest firing
    obtain ⟨schedule,_,yields⟩ := upcoming_spec found
    have last := orderly.fresh p elapsed draw task occurrence rest acts firing vacant T there keyed
    have same : since (taskFromRow T) d.interval again = since task d.interval again := since_same last _ _
    have later := lawful.later _ _ _ _ yields
    rw [← same,since_lastRun ran positive fits] at later
    omega

omit [DecidableEq Proc] in
theorem logged_fired {id o run : Int} (member : .fired id o run ∈ logged d s a) :
    run = s.db.runs.last + 1 := by
  cases logged_cases member with
  | fired => rfl

theorem occurring_step (lawful : d.cron.Lawful) (sound : Sound s) (inv : Occurring d s)
    (orderly : Orderly d s a) (taken : step d s a = some t) : Occurring d t where
  clock := clock_step inv.clock taken
  created := created_step inv taken
  checked := checked_step inv taken
  fired := by
    intro id o run member
    rw [step_history taken] at member
    rcases List.mem_append.mp member with recent | past
    · cases logged_cases recent with
      | fired p elapsed draw task occurrence rest firing vacant =>
        exact fired_new lawful sound inv orderly taken rfl firing vacant
    · exact fired_kept inv orderly taken past
  unique := by
    intro id o run run' first second
    rw [step_history taken] at first second
    rcases List.mem_append.mp first with recent | past <;> rcases List.mem_append.mp second with recent' | past'
    · rw [logged_fired recent,logged_fired recent']
    · cases logged_cases recent with
      | fired p elapsed draw task occurrence rest firing vacant =>
        exact absurd past' (fired_later lawful inv orderly rfl firing vacant run')
    · cases logged_cases recent' with
      | fired p elapsed draw task occurrence rest firing vacant =>
        exact absurd past (fired_later lawful inv orderly rfl firing vacant run)
    · exact inv.unique id o run run' past past'
  recorded := recorded_step sound inv taken
  logged := logged_step inv taken

/-- A step does not make a task look past an occurrence that is due and has not fired. -/
def NotLost (d : Deployment Proc) (s t : System Proc) : Prop :=
  ∀ T ∈ s.db.tasks.rows, ∀ T' ∈ t.db.tasks.rows, T'.id = T.id → T.disabled = false →
    ∀ schedule, d.cron.fromStr T.cron = some schedule →
    ∀ o, d.cron.Occurs schedule (zone d.cron (taskFromRow T) d.defaultTz) o →
      since (taskFromRow T) d.interval s.clock < o → o ≤ s.clock →
      since (taskFromRow T') d.interval s.clock < o ∨ ∃ run, .fired T.id o run ∈ s.history

theorem notLost_step (inv : Occurring d s) (orderly : Orderly d s a) (taken : step d s a = some t) :
    NotLost d s t := by
  intro T before T' after same enabled schedule parsed o occurs pending past
  rcases task_row taken before after same with rfl | ⟨_,p,run,task,outcome,acts,recording,mine⟩
  · exact Or.inl pending
  · obtain ⟨own,fired,order⟩ := orderly.prompt p run task outcome acts recording T before mine.symm enabled
      schedule parsed o occurs pending past
    rcases Int.lt_or_eq_of_le order with earlier | same
    · have passed := (inv.fired T.id own run.id fired).first T before rfl schedule parsed o occurs earlier
      omega
    · exact Or.inr ⟨run.id,same ▸ fired⟩

/-- Occurrences and scheduled runs correspond: every scheduled run has fired an
occurrence, no occurrence has fired twice, no step loses one that is due. -/
structure OccurrencesKept (d : Deployment Proc) (s : System Proc) : Prop where
  scheduled : ∀ r ∈ s.db.runs.rows, r.trigger = "scheduled" → ∃ o, .fired r.taskId o r.id ∈ s.history
  once : ∀ id o run run', .fired id o run ∈ s.history → .fired id o run' ∈ s.history → run = run'
  kept : ∀ a t, Orderly d s a → step d s a = some t → NotLost d s t

omit [DecidableEq Proc] in
theorem occurring_init (tasks : Table TaskRow TaskRow.id) {clock : Int} (after : nanos ≤ clock)
    (before : clock ≤ maxTimestamp * nanos) : Occurring d (System.init tasks clock : System Proc) where
  clock := ⟨after,before⟩
  created := fun _ member => (nomatch member)
  checked := fun _ _ _ _ firing => (nomatch firing)
  fired := fun _ _ _ member => (nomatch member)
  unique := fun _ _ _ _ member => (nomatch member)
  recorded := fun _ _ holds => (nomatch holds)
  logged := fun _ member => (nomatch member)

/-- A tick that lists the task, finds it due and enqueues it. -/
def firstTick : List (Action Unit) := [.tick () 0 0,.tick () 0 0,.tick () 0 0]

/-- A step of a tick loop that does not enqueue, or enqueues the task as it is. -/
theorem orderly_tick {s : System Unit} {elapsed draw : Nat}
    (fresh : ∀ task occurrence rest, s.tick () = .enqueue task occurrence rest →
      ∀ T ∈ s.db.tasks.rows, T.lastRunAt = task.lastRunAt) : Orderly single s (.tick () elapsed draw) where
  ended := fun _ _ _ ends => ends.elim
  fresh := fun _ _ _ task occurrence rest _ firing _ T there _ => fresh task occurrence rest firing T there
  prompt := fun _ _ _ _ acts => (nomatch acts)

/-- A scheduled run is cancelled before it starts, and the next tick fires its
occurrence again. -/
def cancelledEarly : List (Action Unit) :=
  firstTick ++ [.cancel 1,.tick () 0 0] ++ firstTick

/-- A manual run is recorded a second after an occurrence that no tick has seen. -/
def manualOverrun : List (Action Unit) :=
  [.enqueue 1,.proceed (),.proceed (),.proceed (),.proceed (),.advance 11000000000,
    .complete () (.ok 200 none)]

end Qdrust.Scheduler
