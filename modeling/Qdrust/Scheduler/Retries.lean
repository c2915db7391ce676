import Qdrust.Scheduler.Steps

/-! How many retries a run gets. The count is read and the retry inserted in two
steps, which is sound as long as no two workers work on one run. -/
namespace Qdrust.Scheduler
open Library Store

variable {Proc : Type}

/-- A claim does not take a run that another process still works on. -/
def Exclusive (s : System Proc) (a : Action Proc) : Prop :=
  ∀ p row, a = .proceed p → s.phase p = .claim → s.db.claimCandidate (timestamp s.clock) = some row →
    ∀ q run, (s.phase q).run = some run → run.id ≠ row.id

/-- A run that is active or worked on. -/
def Live (s : System Proc) (r : Run) : Prop :=
  r.status.active = true ∨ ∃ q run, (s.phase q).run = some run ∧ run.id = r.id

/-- The run a worker holds may still fail: its success has not been written. -/
def Phase.undecided : Phase → Option Run
  | .log _ _ => none
  | phase => phase.run

/-- One worker works on a run, and one run of a retry chain is live. -/
structure Alone (s : System Proc) : Prop where
  worker : ∀ p q run other, (s.phase p).run = some run → (s.phase q).run = some other →
    run.id = other.id → p = q
  chain : ∀ x ∈ s.db.runs.rows, ∀ y ∈ s.db.runs.rows, Live s x → Live s y → original x = original y → x = y

/-- The retries of a run: what they point at, what has caused them, how many there are. -/
structure Retried (s : System Proc) : Prop where
  root : ∀ x ∈ s.db.runs.rows, ∀ o, x.retryOf = some o → ∃ y ∈ s.db.runs.rows, y.id = o ∧
    y.retryOf = none ∧ y.taskId = x.taskId ∧ y.status.active = false ∧ y.status ≠ .succeeded
  undecided : ∀ q run, (s.phase q).undecided = some run → ∀ x ∈ s.db.runs.rows, x.id = run.id →
    x.status ≠ .succeeded
  counted : ∀ q run task, s.phase q = .schedule run task →
    retryAllowed task (countRetries s.db (original run)) = true
  bound : ∀ T ∈ s.db.tasks.rows, 0 ≤ T.retryCount.getD 0 → ∀ x ∈ s.db.runs.rows, x.taskId = T.id →
    ∀ o, x.retryOf = some o → countRetries s.db o ≤ T.retryCount.getD 0

theorem undecided_run {phase : Phase} {run : Run} (holds : phase.undecided = some run) :
    phase.run = some run := by
  cases phase <;> first | exact holds | cases holds

variable {d : Deployment Proc} {s t : System Proc} {a : Action Proc}

theorem original_le (retried : Retried s) {x : Run} (member : x ∈ s.db.runs.rows) :
    original x ≤ s.db.runs.last := by
  cases points : x.retryOf with
  | none => simpa [original,points] using s.db.runs.bounded x member
  | some o =>
    obtain ⟨y,there,rfl,_⟩ := retried.root x member o points
    simpa [original,points] using s.db.runs.bounded y there

theorem original_same {run r : Run} (same : SameRun run r) : original r = original run := by
  simp only [original,same.retryOf,same.id]

theorem original_moved {r r' : Run} (moved : Moves r r') : original r' = original r := by
  simp only [original,moved.retryOf,moved.id]

theorem not_active {db : Db} {taskId : Int} (vacant : db.hasActive taskId = false) {r : Run}
    (member : r ∈ db.runs.rows) (same : r.taskId = taskId) : r.status.active = false := by
  have none := List.any_eq_false.mp vacant r member
  simpa [same] using none

/-- A failing completion writes no success. -/
theorem finish_undecided {run held : Run} {task : Task} {outcome : Outcome}
    (holds : (afterFinish run task outcome).undecided = some held) (r : Run) (now : Int) :
    (r.finished outcome.httpStatus outcome.error now).status ≠ .succeeded := by
  cases outcome with
  | ok status log => cases log <;> cases holds
  | err text steps =>
    cases phrase : (Outcome.err text steps).cancelled with
    | true =>
      simp only [afterFinish,phrase,if_true] at holds
      cases holds
    | false => cases flag : r.cancelRequested <;> simp [Run.finished,Outcome.error,phrase,flag]

/-- A retry is scheduled after a count that allows it. -/
theorem work_to_schedule {name : String} {p : Proc} {now : Int} {db : Db} {phase : Phase} {run : Run}
    {task : Task} (next : (work name p now db phase).2.1 = .schedule run task) :
    phase = .count run task ∧ retryAllowed task (countRetries db (original run)) = true := by
  cases phase with
  | count run' task' =>
    simp only [work] at next
    split at next
    next allowed =>
      cases next
      exact ⟨rfl,allowed⟩
    next => cases next
  | claim => simp only [work] at next; split at next <;> cases next
  | start run' => simp only [work] at next; split at next <;> cases next
  | load run' => simp only [work] at next; split at next <;> cases next
  | record run' task' outcome => cases outcome <;> cases next
  | finish run' task' outcome =>
    simp only [work,afterFinish] at next
    split at next
    · cases next
    · cases next
    · split at next
      · cases next
      · split at next <;> cases next
  | recover => cases next
  | execute run' task' => cases next
  | trace run' task' outcome => cases next
  | log run' text => cases next
  | schedule run' task' => cases next

variable [DecidableEq Proc]

theorem live_of_step (taken : step d s a = some t) {r r' : Run} (before : r ∈ s.db.runs.rows)
    (after : r' ∈ t.db.runs.rows) (same : r'.id = r.id) (live : Live t r') : Live s r := by
  have moved := (step_lawful taken).evolves.related before after same
  rcases live with active | ⟨q,run,holds,named⟩
  · exact Or.inl (moved.active active)
  · rcases step_run taken holds with old | ⟨row,_,_,best,rfl⟩
    · exact Or.inr ⟨q,run,old,named.trans same⟩
    · obtain ⟨member,claimable⟩ := candidate_spec best
      have here : row = r := s.db.runs.key_unique member before (named.trans same)
      subst here
      simp only [Run.claimable,Run.takeable,Bool.and_eq_true,Bool.or_eq_true,beq_iff_eq] at claimable
      rcases claimable.1.2 with pending | ⟨held,_⟩
      · exact Or.inl (by simp [pending,RunStatus.active])
      · exact Or.inl (RunStatus.active_of_held held)

/-- Only a scheduled retry adds to a count, and by one. -/
theorem count_step (taken : step d s a = some t) (o : Int) :
    (countRetries t.db o = countRetries s.db o ∧
        ∀ r' ∈ t.db.runs.rows, r'.retryOf = some o → ∃ r ∈ s.db.runs.rows, r.id = r'.id) ∨
      (countRetries t.db o = countRetries s.db o + 1 ∧ ∃ p run task, a = .proceed p ∧
        s.phase p = .schedule run task ∧ original run = o) := by
  have counted := (step_lawful taken).evolves.countP (p := fun run => run.retryOf == some o)
    fun r r' moved => by rw [moved.retryOf]
  have fresh : ∀ r' ∈ t.db.runs.rows,
      (decide (s.db.runs.last < r'.id) && r'.retryOf == some o) = true → NewRow d s a r' ∧ r'.retryOf = some o := by
    intro r' after new
    simp only [Bool.and_eq_true,decide_eq_true_eq,beq_iff_eq] at new
    rcases step_origin taken after with ⟨r,before,same⟩ | row
    · have bound := s.db.runs.bounded r before
      omega
    · exact ⟨row,new.2⟩
  have single := t.db.runs.countP_le_one fun r' after new => (fresh r' after new).1.id
  simp only [countRetries,counted]
  by_cases none : t.db.runs.rows.countP (fun r' => decide (s.db.runs.last < r'.id) && r'.retryOf == some o) = 0
  · refine Or.inl ⟨by rw [none,Nat.add_zero],fun r' after points => ?_⟩
    have old := List.countP_eq_zero.mp none r' after
    simp only [points,beq_self_eq_true,Bool.and_true,decide_eq_true_eq] at old
    exact (step_lawful taken).evolves.origin r' after (by omega)
  · obtain ⟨r',after,new⟩ := List.countP_pos_iff.mp (Nat.pos_of_ne_zero none)
    obtain ⟨row,points⟩ := fresh r' after new
    refine Or.inr ⟨by omega,?_⟩
    cases row with
    | manual => cases points
    | retried p run task runAfter scheduling => exact ⟨p,run,task,rfl,scheduling,Option.some.inj points⟩
    | fired => cases points

/-- A worker that schedules a retry leaves its run, which is not active then. -/
theorem new_alone (sound : Sound s) (alone : Alone s) (retried : Retried s) (taken : step d s a = some t)
    {n : Run} (new : NewRow d s a n) {y y' : Run} (before : y ∈ s.db.runs.rows) (after : y' ∈ t.db.runs.rows)
    (same : y'.id = y.id) (live : Live t y') : original y ≠ original n := by
  have bound := original_le retried before
  cases new with
  | manual taskId vacant =>
    simp only [original,pendingRun,Option.getD_none] at bound ⊢
    omega
  | fired p elapsed draw task occurrence rest runAfter firing vacant =>
    simp only [original,pendingRun,Option.getD_none] at bound ⊢
    omega
  | retried p run task runAfter scheduling vacant =>
    intro chained
    have holds : (s.phase p).run = some run := by rw [scheduling]; rfl
    have reads : (s.phase p).task = some task := by rw [scheduling]; rfl
    obtain ⟨x,member,row⟩ := sound.known.run p run holds
    have here : x = y := alone.chain x member y before (Or.inr ⟨p,run,holds,row.id.symm⟩)
      (live_of_step taken before after same live) ((original_same row).trans chained.symm)
    subst here
    have idle := not_active vacant before (row.taskId.trans (sound.known.task p run task holds reads).symm)
    rcases live with active | ⟨q,other,held,named⟩
    · have moved := (step_lawful taken).evolves.related before after same
      rw [moved.active active] at idle
      cases idle
    · rcases step_run taken held with old | ⟨_,acts,claiming,_⟩
      · cases alone.worker q p other run old holds (named.trans (same.trans row.id))
        cases taken
        simp only [System.proceed,scheduling,work,Function.update_self] at held
        cases held
      · cases acts
        rw [scheduling] at claiming
        cases claiming

theorem alone_step (sound : Sound s) (alone : Alone s) (retried : Retried s) (taken : step d s a = some t)
    (allowed : Exclusive s a) : Alone t := by
  refine ⟨fun p q run other first second same => ?_,fun x' afterX y' afterY liveX liveY same => ?_⟩
  · rcases step_run taken first with oldP | ⟨row,rfl,claiming,best,rfl⟩
    · rcases step_run taken second with oldQ | ⟨row,rfl,claiming,best,rfl⟩
      · exact alone.worker p q run other oldP oldQ same
      · exact absurd same (allowed q row rfl claiming best p run oldP)
    · rcases step_run taken second with oldQ | ⟨row',again,_⟩
      · exact absurd same.symm (allowed p row rfl claiming best q other oldQ)
      · cases again
        rfl
  · have evolved := (step_lawful taken).evolves
    rcases step_origin taken afterX with ⟨x,beforeX,sameX⟩ | newX
    · have movedX := original_moved (evolved.related beforeX afterX sameX)
      rcases step_origin taken afterY with ⟨y,beforeY,sameY⟩ | newY
      · have movedY := original_moved (evolved.related beforeY afterY sameY)
        have here : x = y := alone.chain x beforeX y beforeY (live_of_step taken beforeX afterX sameX liveX)
          (live_of_step taken beforeY afterY sameY liveY) (movedX.symm.trans (same.trans movedY))
        exact t.db.runs.key_unique afterX afterY (by rw [sameX,sameY,here])
      · exact absurd (movedX.symm.trans same) (new_alone sound alone retried taken newY beforeX afterX sameX liveX)
    · rcases step_origin taken afterY with ⟨y,beforeY,sameY⟩ | newY
      · have movedY := original_moved (evolved.related beforeY afterY sameY)
        exact absurd (movedY.symm.trans same.symm)
          (new_alone sound alone retried taken newX beforeY afterY sameY liveY)
      · exact t.db.runs.key_unique afterX afterY (by rw [newX.id,newY.id])

/-- A row keeps what the root of a chain is, over every step. -/
theorem root_moved (taken : step d s a = some t) {y : Run} (before : y ∈ s.db.runs.rows)
    (ended : y.status.active = false) : ∃ y' ∈ t.db.runs.rows, y'.id = y.id ∧ y'.retryOf = y.retryOf ∧
      y'.taskId = y.taskId ∧ y'.status = y.status := by
  obtain ⟨y',after,same,moved⟩ := (step_lawful taken).evolves.moved y before
  exact ⟨y',after,same,moved.retryOf,moved.taskId,moved.terminal (by simp [RunStatus.terminal,ended])⟩

omit [DecidableEq Proc] in
/-- The root of the run a worker is to retry. -/
theorem root_of_schedule (sound : Sound s) (retried : Retried s) {p : Proc} {run : Run} {task : Task}
    (scheduling : s.phase p = .schedule run task) (vacant : s.db.hasActive task.id = false) :
    ∃ y ∈ s.db.runs.rows, y.id = original run ∧ y.retryOf = none ∧ y.taskId = task.id ∧
      y.status.active = false ∧ y.status ≠ .succeeded := by
  have holds : (s.phase p).run = some run := by rw [scheduling]; rfl
  have named := sound.known.task p run task holds (by rw [scheduling]; rfl)
  obtain ⟨x,member,row⟩ := sound.known.run p run holds
  cases points : run.retryOf with
  | none =>
    refine ⟨x,member,by simp [original,points,row.id],row.retryOf.trans points,row.taskId.trans named.symm,
      not_active vacant member (row.taskId.trans named.symm),?_⟩
    exact retried.undecided p run (by rw [scheduling]; rfl) x member row.id
  | some o =>
    obtain ⟨y,there,same,first,owner,ended,failed⟩ := retried.root x member o (row.retryOf.trans points)
    exact ⟨y,there,by simp [original,points,same],first,owner.trans (row.taskId.trans named.symm),ended,failed⟩

omit [DecidableEq Proc] in
theorem root_owner (sound : Sound s) (retried : Retried s) {p : Proc} {run : Run} {task : Task}
    (scheduling : s.phase p = .schedule run task) :
    ∃ y ∈ s.db.runs.rows, y.id = original run ∧ y.taskId = task.id := by
  have holds : (s.phase p).run = some run := by rw [scheduling]; rfl
  have named := sound.known.task p run task holds (by rw [scheduling]; rfl)
  obtain ⟨x,member,row⟩ := sound.known.run p run holds
  cases points : run.retryOf with
  | none => exact ⟨x,member,by simp [original,points,row.id],row.taskId.trans named.symm⟩
  | some o =>
    obtain ⟨y,there,same,_,owner,_⟩ := retried.root x member o (row.retryOf.trans points)
    exact ⟨y,there,by simp [original,points,same],owner.trans (row.taskId.trans named.symm)⟩

theorem root_step (sound : Sound s) (retried : Retried s) (taken : step d s a = some t) :
    ∀ x ∈ t.db.runs.rows, ∀ o, x.retryOf = some o → ∃ y ∈ t.db.runs.rows, y.id = o ∧
      y.retryOf = none ∧ y.taskId = x.taskId ∧ y.status.active = false ∧ y.status ≠ .succeeded := by
  intro x' after o points
  have carried : ∀ y ∈ s.db.runs.rows, y.id = o → y.retryOf = none → y.taskId = x'.taskId →
      y.status.active = false → y.status ≠ .succeeded → ∃ y ∈ t.db.runs.rows, y.id = o ∧
      y.retryOf = none ∧ y.taskId = x'.taskId ∧ y.status.active = false ∧ y.status ≠ .succeeded := by
    intro y before same first owner ended failed
    obtain ⟨y',there,keyed,points',task',status⟩ := root_moved taken before ended
    exact ⟨y',there,keyed.trans same,points'.trans first,task'.trans owner,status ▸ ended,status ▸ failed⟩
  rcases step_origin taken after with ⟨x,before,same⟩ | new
  · have moved := (step_lawful taken).evolves.related before after same
    obtain ⟨y,there,named,first,owner,ended,failed⟩ := retried.root x before o (moved.retryOf.symm.trans points)
    exact carried y there named first (owner.trans moved.taskId.symm) ended failed
  · cases new with
    | manual => cases points
    | fired => cases points
    | retried p run task runAfter scheduling vacant =>
      cases points
      obtain ⟨y,there,named,first,owner,ended,failed⟩ := root_of_schedule sound retried scheduling vacant
      exact carried y there named first owner ended failed

/-- A worker that has not written its success is not at its log line. -/
theorem step_undecided (taken : step d s a = some t) {q : Proc} {run : Run}
    (holds : (t.phase q).undecided = some run) :
    (s.phase q).undecided = some run ∨ ∃ row, a = .proceed q ∧ s.phase q = .claim ∧
      s.db.claimCandidate (timestamp s.clock) = some row ∧
      run = runFields (row.leasedBy (d.name q) (addI64 (timestamp s.clock) (max 300 1))) := by
  rcases step_run taken (undecided_run holds) with old | claims
  · refine Or.inl ?_
    by_cases logging : ∃ done text, s.phase q = .log done text
    · obtain ⟨done,text,current⟩ := logging
      have moved := step_phase taken q
      generalize t.phase q = phase at moved holds
      cases moved with
      | stayed => rw [current] at holds; cases holds
      | worked => rw [current] at holds; cases holds
      | completed run' task outcome executing => rw [current] at executing; cases executing
      | crashed => cases holds
    · cases current : s.phase q with
      | log done text => exact absurd ⟨done,text,current⟩ logging
      | _ => rwa [current] at old
  · exact Or.inr claims

theorem undecided_step (alone : Alone s) (retried : Retried s) (sound : Sound s)
    (taken : step d s a = some t) : ∀ q run, (t.phase q).undecided = some run →
    ∀ x ∈ t.db.runs.rows, x.id = run.id → x.status ≠ .succeeded := by
  intro q run holds x' after named
  rcases step_undecided taken holds with old | ⟨row,rfl,claiming,best,rfl⟩
  · obtain ⟨x,before,row⟩ := sound.known.run q run (undecided_run old)
    have same : x'.id = x.id := named.trans row.id.symm
    have failed := retried.undecided q run old x before row.id
    cases step_row taken before after same with
    | kept => exact failed
    | worked p _ _ worked =>
      generalize phase : s.phase p = current at worked
      cases worked with
      | kept => exact failed
      | recovered => cases flag : x.cancelRequested <;> simp [Run.recovered,flag]
      | claimed => simp [Run.leasedBy]
      | started => simp [Run.started]
      | finished other task outcome _ mine held =>
        have here : p = q := alone.worker p q other run (by rw [phase]; rfl) (undecided_run old)
          (mine.symm.trans row.id)
        subst here
        cases taken
        simp only [System.proceed,Function.update_self,phase,work] at holds
        exact finish_undecided holds x _
    | cancelled _ active =>
      intro done
      cases status : x.status <;> simp_all [Run.cancelAsked]
    | renewed => exact failed
  · rw [(claim_step claiming best taken).2 x' after named]
    simp [Run.leasedBy]

theorem counted_step (sound : Sound s) (alone : Alone s) (retried : Retried s)
    (taken : step d s a = some t) : ∀ q run task, t.phase q = .schedule run task →
      retryAllowed task (countRetries t.db (original run)) = true := by
  intro q run task scheduling
  have moved := step_phase taken q
  generalize target : t.phase q = phase at moved
  rw [target] at scheduling
  cases moved with
  | stayed =>
    rcases count_step taken (original run) with ⟨same,_⟩ | ⟨_,p,other,task',rfl,scheduling',chained⟩
    · rw [same]
      exact retried.counted q run task scheduling
    · have holds : (s.phase q).run = some run := by rw [scheduling]; rfl
      have holds' : (s.phase p).run = some other := by rw [scheduling']; rfl
      obtain ⟨x,member,row⟩ := sound.known.run q run holds
      obtain ⟨y,member',row'⟩ := sound.known.run p other holds'
      have here : x = y := alone.chain x member y member' (Or.inr ⟨q,run,holds,row.id.symm⟩)
        (Or.inr ⟨p,other,holds',row'.id.symm⟩)
        ((original_same row).trans (chained.symm.trans (original_same row').symm))
      have mine : p = q := alone.worker p q other run holds' holds (by rw [← row'.id,← row.id,here])
      subst mine
      cases taken
      simp only [System.proceed,Function.update_self,scheduling',work] at target
      cases target
  | worked =>
    obtain ⟨counting,allowed⟩ := work_to_schedule scheduling
    cases taken
    simp [System.proceed,counting,work,allowed]
  | completed run' task' outcome executing =>
    unfold completion at scheduling
    split at scheduling <;> cases scheduling
  | crashed => cases scheduling

theorem bound_step (sound : Sound s) (retried : Retried s) (taken : step d s a = some t) :
    ∀ T ∈ t.db.tasks.rows, 0 ≤ T.retryCount.getD 0 → ∀ x ∈ t.db.runs.rows, x.taskId = T.id →
      ∀ o, x.retryOf = some o → countRetries t.db o ≤ T.retryCount.getD 0 := by
  intro T' afterT limited x' after owned o points
  obtain ⟨recorded,last⟩ := step_recorded taken
  obtain ⟨T,before,named⟩ := recorded.origin T' afterT (last ▸ t.db.tasks.bounded T' afterT)
  have limit : T'.retryCount = T.retryCount := by
    rw [recorded.related before afterT named.symm]
  rw [limit] at limited ⊢
  rcases count_step taken o with ⟨same,origin⟩ | ⟨more,p,run,task,rfl,scheduling,chained⟩
  · obtain ⟨x,old,keyed⟩ := origin x' after points
    have moved := (step_lawful taken).evolves.related old after keyed.symm
    rw [same]
    exact retried.bound T before limited x old (moved.taskId.symm.trans (owned.trans named.symm)) o
      (moved.retryOf.symm.trans points)
  · have allowed := retried.counted p run task scheduling
    obtain ⟨S,there,snapshot⟩ := sound.known.loaded p task (by rw [scheduling]; rfl)
    have mine : S.id = task.id := by rw [snapshot]; rfl
    have limit' : S.retryCount = task.retryCount := by rw [snapshot]; rfl
    obtain ⟨y,old,first,owner⟩ := root_owner sound retried scheduling
    obtain ⟨y',there',first',_,owner',_⟩ := root_step sound retried taken x' after o points
    have moved := (step_lawful taken).evolves.related old there' (first'.trans (chained.symm.trans first.symm))
    have here : S = T := s.db.tasks.key_unique there before (by
      rw [mine,named,← owned,← owner',moved.taskId,owner])
    simp only [retryAllowed,← limit',here,chained,Bool.or_eq_true,beq_iff_eq,decide_eq_true_eq] at allowed
    rw [more]
    omega

theorem retried_step (sound : Sound s) (alone : Alone s) (retried : Retried s)
    (taken : step d s a = some t) : Retried t :=
  ⟨root_step sound retried taken,undecided_step alone retried sound taken,
    counted_step sound alone retried taken,bound_step sound retried taken⟩

/-- Every retry is in the history with the run that caused it. -/
structure Caused (s : System Proc) : Prop where
  logged : ∀ n ∈ s.db.runs.rows, ∀ o, n.retryOf = some o → ∃ failed, .retried n.id failed ∈ s.history
  cause : ∀ retry failed, .retried retry failed ∈ s.history → ∃ n ∈ s.db.runs.rows, ∃ x ∈ s.db.runs.rows,
    n.id = retry ∧ x.id = failed ∧ n.retryOf = some (original x) ∧ x.status.active = false ∧
      x.status ≠ .succeeded

theorem caused_step (sound : Sound s) (retried : Retried s) (caused : Caused s)
    (taken : step d s a = some t) : Caused t := by
  have history := step_history taken
  have evolved := (step_lawful taken).evolves
  refine ⟨fun n' after o points => ?_,fun retry failed member => ?_⟩
  · rw [history]
    rcases step_origin taken after with ⟨n,before,same⟩ | new
    · have moved := evolved.related before after same
      obtain ⟨failed,past⟩ := caused.logged n before o (moved.retryOf.symm.trans points)
      exact ⟨failed,List.mem_append_right _ (same ▸ past)⟩
    · cases new with
      | manual => cases points
      | fired => cases points
      | retried p run task runAfter scheduling vacant =>
        refine ⟨run.id,List.mem_append_left _ ?_⟩
        simp [logged,scheduling,work_schedule,vacant,pendingRun]
  · rw [history] at member
    rcases List.mem_append.mp member with recent | past
    · cases logged_cases recent with
      | retried p run task scheduling vacant =>
        have holds : (s.phase p).run = some run := by rw [scheduling]; rfl
        have named := sound.known.task p run task holds (by rw [scheduling]; rfl)
        obtain ⟨x,before,row⟩ := sound.known.run p run holds
        have ended := not_active vacant before (row.taskId.trans named.symm)
        have unsuccessful := retried.undecided p run (by rw [scheduling]; rfl) x before row.id
        obtain ⟨x',after,same,points,_,status⟩ := root_moved taken before ended
        obtain ⟨n,there,keyed,pointsN⟩ : ∃ n ∈ t.db.runs.rows, n.id = s.db.runs.last + 1 ∧
            n.retryOf = some (original run) := by
          cases taken
          simp only [System.proceed,scheduling,work,scheduleRetry]
          rcases insertPending_cases s.db task.id (timestamp s.clock)
            (some (addI64 (timestamp s.clock) (max (retryDelay task) 1))) (some (original run)) "retry" with
            ⟨active,_⟩ | ⟨_,_,rows,_⟩
          · rw [vacant] at active
            cases active
          · exact ⟨_,(rows _).mpr (Or.inr rfl),rfl,rfl⟩
        refine ⟨n,there,x',after,keyed,same.trans row.id,?_,status ▸ ended,status ▸ unsuccessful⟩
        rw [pointsN,original,original,points,row.retryOf,same,row.id]
    · obtain ⟨n,before,x,beforeX,rfl,rfl,points,ended,unsuccessful⟩ := caused.cause retry failed past
      obtain ⟨n',after,sameN,movedN⟩ := evolved.moved n before
      obtain ⟨x',afterX,sameX,pointsX,_,status⟩ := root_moved taken beforeX ended
      refine ⟨n',after,x',afterX,sameN,sameX,?_,status ▸ ended,status ▸ unsuccessful⟩
      rw [movedN.retryOf,points,original,original,pointsX,sameX]

/-- Retries stay within the task's limit, belong to the run they repeat, and
never repeat a success. -/
structure RetriesKept (s : System Proc) : Prop where
  bound : ∀ T ∈ s.db.tasks.rows, 0 ≤ T.retryCount.getD 0 → ∀ o ∈ s.db.runs.rows, o.taskId = T.id →
    countRetries s.db o.id ≤ T.retryCount.getD 0
  chain : ∀ n ∈ s.db.runs.rows, ∀ o, n.retryOf = some o → ∃ x ∈ s.db.runs.rows,
    .retried n.id x.id ∈ s.history ∧ n.retryOf = some (original x) ∧ x.status ≠ .succeeded
  root : ∀ n ∈ s.db.runs.rows, ∀ o, n.retryOf = some o → ∃ y ∈ s.db.runs.rows, y.id = o ∧
    y.retryOf = none ∧ y.status ≠ .succeeded

/-- The invariant of runs in which claims are exclusive. -/
structure Kept (s : System Proc) : Prop where
  sound : Sound s
  alone : Alone s
  retried : Retried s
  caused : Caused s

omit [DecidableEq Proc] in
theorem kept_init (tasks : Table TaskRow TaskRow.id) (clock : Int) :
    Kept (System.init tasks clock : System Proc) where
  sound := sound_init tasks clock
  alone := ⟨fun _ _ _ _ first => (nomatch first),fun _ member => (nomatch member)⟩
  retried := ⟨fun _ member => (nomatch member),fun _ _ holds => (nomatch holds),
    fun _ _ _ scheduling => (nomatch scheduling),
    fun _ _ _ _ member => (nomatch member)⟩
  caused := ⟨fun _ member => (nomatch member),fun _ _ member => (nomatch member)⟩

theorem kept_step (kept : Kept s) (allowed : Exclusive s a) (taken : step d s a = some t) : Kept t where
  sound := sound_step kept.sound taken
  alone := alone_step kept.sound kept.alone kept.retried taken allowed
  retried := retried_step kept.sound kept.alone kept.retried taken
  caused := caused_step kept.sound kept.retried kept.caused taken

def retryOnce : TaskRow := { checkIn with retryCount := some 1 }

def refused : Outcome := .err "connection refused" []

/-- A failing execution and its retry, which fails too. -/
def failsTwice : List (Action Unit) :=
  [.enqueue 1,.proceed (),.proceed (),.proceed (),.proceed (),.complete () refused,
    .proceed (),.proceed (),.proceed (),.proceed (),.proceed (),.advance 60000000000,
    .proceed (),.proceed (),.proceed (),.proceed (),.complete () refused,
    .proceed (),.proceed (),.proceed (),.proceed ()]

/-- A single process never works on two runs. -/
theorem exclusive_single (s : System Unit) (a : Action Unit) : Exclusive s a := by
  intro p row acts claiming best q run holds
  rw [show q = p from rfl,claiming] at holds
  cases holds

/-- Two processes execute one run; one stalls between its count and its insert
until the retry of the other has failed. -/
def countedTwice : List (Action Bool) :=
  [.enqueue 1,.proceed true,.proceed true,.proceed true,.proceed true,.advance 301000000000,
    .proceed false,.proceed false,.proceed false,.proceed false,
    .complete true refused,.proceed true,.proceed true,.proceed true,.proceed true,
    .complete false refused,.proceed false,.proceed false,.proceed false,.proceed false,.proceed false,
    .advance 60000000000,.proceed false,.proceed false,.proceed false,.proceed false,
    .complete false refused,.proceed false,.proceed false,.proceed false,.proceed true]

/-- Two processes execute one run; the first succeeds, the second fails. -/
def repeatedSuccess : List (Action Bool) :=
  [.enqueue 1,.proceed true,.proceed true,.proceed true,.proceed true,.advance 301000000000,
    .proceed false,.proceed false,.proceed false,.proceed false,
    .complete false (.ok 200 none),.proceed false,.proceed false,
    .complete true refused,.proceed true,.proceed true,.proceed true,.proceed true,.proceed true]

end Qdrust.Scheduler
