import Qdrust.Scheduler.Completion
import Qdrust.Scheduler.Retries
import Qdrust.Scheduler.Traces

/-! What a run does besides ending: the last error of its task, the trace, the notification
and the retry. A completion decides on them by the outcome alone, whoever has asked for what. -/
namespace Qdrust.Scheduler.Cancellation
open Library Store

variable {Proc : Type}

inductive Effect where
  | recorded (run : Int)
  | traced (run : Int)
  | notified (run : Int) (success : Bool)
  | retried (run : Int)
deriving DecidableEq

def Effect.run : Effect → Int
  | .recorded run | .traced run | .notified run _ | .retried run => run

/-- The processes with the notification each worker has still to send. `effects` is what has been
done, and `ended` the runs of which an execution has ended, but not as cancelled. -/
structure Server (Proc : Type) where
  system : System Proc
  owed : Proc → Option (Int × Bool)
  effects : List Effect
  ended : List Int

def Server.init (tasks : Table TaskRow TaskRow.id) (clock : Int) : Server Proc :=
  ⟨System.init tasks clock,fun _ => none,[],[]⟩

inductive Action (Proc : Type) where
  | system (action : Scheduler.Action Proc)
  | notify (p : Proc)

/-- The event a completion notifies of. -/
def notified : Outcome → Option Bool
  | .ok _ _ => some true
  | .err text steps => if (Outcome.err text steps).cancelled then none else some false

/-- The worker notifies next. A log line is stored before. -/
def Server.notifies (s : Server Proc) (p : Proc) : Option (Int × Bool) :=
  match s.system.phase p with
  | .log _ _ => none
  | _ => s.owed p

/-- What a call of a worker does for its run. -/
def callEffects (s : System Proc) (p : Proc) : List Effect :=
  match s.phase p with
  | .record run _ _ => [.recorded run.id]
  | .trace run _ _ => [.traced run.id]
  | .schedule run task =>
    if (scheduleRetry s.db task.id (original run) (retryDelay task) (timestamp s.clock)).2.isSome then [.retried run.id] else []
  | _ => []

def effectsOf (s : System Proc) : Scheduler.Action Proc → List Effect
  | .proceed p => callEffects s p
  | _ => []

def endedBy (s : System Proc) : Scheduler.Action Proc → List Int
  | .complete p outcome => match s.phase p with
    | .execute run _ => if outcome.cancelled then [] else [run.id]
    | _ => []
  | _ => []

variable [DecidableEq Proc]

/-- A worker that has finished a run has its notification to send. -/
def owedAfter (s : Server Proc) : Scheduler.Action Proc → Proc → Option (Int × Bool)
  | .proceed p => match s.system.phase p with
    | .finish run _ outcome => Function.update s.owed p ((notified outcome).map fun success => (run.id,success))
    | _ => s.owed
  | .crash p => Function.update s.owed p none
  | _ => s.owed

def Server.blocks (s : Server Proc) : Scheduler.Action Proc → Bool
  | .proceed p => (s.notifies p).isSome
  | _ => false

variable (d : Deployment Proc)

def stepServer (s : Server Proc) : Action Proc → Option (Server Proc)
  | .system a =>
    if s.blocks a then none
    else (step d s.system a).map fun system => {
      system := system
      owed := owedAfter s a
      effects := effectsOf s.system a ++ s.effects
      ended := endedBy s.system a ++ s.ended }
  | .notify p => (s.notifies p).map fun event =>
    { s with owed := Function.update s.owed p none, effects := .notified event.1 event.2 :: s.effects }

/-- An execution of a run that is to be cancelled ends as cancelled, and no run is cancelled once an
execution of it has ended otherwise. -/
def Prompt (s : Server Proc) : Action Proc → Prop
  | .system (.complete p outcome) => outcome.cancelled = false → ∀ run task, s.system.phase p = .execute run task →
    ∀ r ∈ s.system.db.runs.rows, r.id = run.id → r.cancelRequested = false
  | .system (.cancel runId) => ∀ r ∈ s.system.db.runs.rows, r.id = runId → r.status.active = true → runId ∉ s.ended
  | _ => True

/-- Every change of a task, of a trace and every new retry is among the effects. -/
structure Accounted (s t : Server Proc) : Prop where
  error : t.system.db.tasks ≠ s.system.db.tasks → ∃ run, t.effects = .recorded run :: s.effects
  trace : ∀ r ∈ s.system.db.runs.rows, ∀ r' ∈ t.system.db.runs.rows, r'.id = r.id →
    r'.failureTrace ≠ r.failureTrace → ∃ run, t.effects = .traced run :: s.effects
  retry : ∀ r' ∈ t.system.db.runs.rows, (∀ r ∈ s.system.db.runs.rows, r'.id ≠ r.id) → ∀ first, r'.retryOf = some first →
    ∃ run : Run, t.effects = .retried run.id :: s.effects ∧ original run = first

/-- The run whose end a worker is about to tell. -/
def telling : Phase → Option Run
  | .record run _ _ | .trace run _ _ | .count run _ | .schedule run _ => some run
  | .finish run _ outcome => if outcome.cancelled then none else some run
  | _ => none

structure Settled (s : Server Proc) : Prop where
  sound : Sound s.system
  telling : ∀ q run, telling (s.system.phase q) = some run → run.id ∈ s.ended
  owed : ∀ q run success, s.owed q = some (run,success) → run ∈ s.ended
  effects : ∀ effect ∈ s.effects, effect.run ∈ s.ended
  flagged : ∀ r ∈ s.system.db.runs.rows, r.cancelRequested = true → r.id ∉ s.ended

variable {d} {s t : Server Proc}

section Calls

omit [DecidableEq Proc]

theorem scheduled_iff (db : Db) (task : Task) (run : Run) (now : Int) :
    (scheduleRetry db task.id (original run) (retryDelay task) now).2.isSome = !db.hasActive task.id := by
  rcases insertPending_cases db task.id now (some (addI64 now (max (retryDelay task) 1)))
    (some (original run)) "retry" with ⟨active,none⟩ | ⟨vacant,_,_,found⟩
  · rw [scheduleRetry,none,active]
    rfl
  · rw [scheduleRetry,found,vacant]
    rfl

/-- Who tells of a run has told of it before, or has it from a completion. -/
theorem work_telling {name : String} {p : Proc} {now : Int} {db : Db} {phase : Phase} {run : Run}
    (tells : telling (work name p now db phase).2.1 = some run) : telling phase = some run := by
  cases phase with
  | recover => cases tells
  | claim =>
    simp only [work] at tells
    split at tells <;> cases tells
  | start run' =>
    simp only [work] at tells
    split at tells <;> cases tells
  | load run' =>
    simp only [work] at tells
    split at tells <;> cases tells
  | execute run' task => cases tells
  | record run' task outcome =>
    cases outcome with
    | ok status log => exact tells
    | err text steps => exact tells
  | trace run' task outcome =>
    change (if outcome.cancelled = true then none else some run') = some run at tells
    split at tells
    · cases tells
    · exact tells
  | finish run' task outcome =>
    change telling (afterFinish run' task outcome) = some run at tells
    cases outcome with
    | ok status log => cases log <;> cases tells
    | err text steps =>
      unfold afterFinish at tells
      dsimp only at tells
      split at tells
      · cases tells
      next alive =>
        split at tells
        · exact (if_neg alive).trans tells
        · cases tells
  | log run' text => cases tells
  | count run' task =>
    simp only [work] at tells
    split at tells
    · exact tells
    · cases tells
  | schedule run' task => cases tells

theorem notified_some {outcome : Outcome} {success : Bool} (event : notified outcome = some success) (run : Run) (task : Task) :
    telling (.finish run task outcome) = some run := by
  cases outcome with
  | ok status log => rfl
  | err text steps =>
    change (if _ then none else some false) = _ at event
    split at event
    · cases event
    next alive => exact if_neg alive

theorem callEffects_telling {s : System Proc} {p : Proc} {effect : Effect} (done : effect ∈ callEffects s p) :
    ∃ run, telling (s.phase p) = some run ∧ effect.run = run.id := by
  unfold callEffects at done
  split at done
  next run task outcome phase =>
    obtain rfl := List.mem_singleton.mp done
    exact ⟨run,by rw [phase]; rfl,rfl⟩
  next run task outcome phase =>
    obtain rfl := List.mem_singleton.mp done
    exact ⟨run,by rw [phase]; rfl,rfl⟩
  next run task phase =>
    split at done
    · obtain rfl := List.mem_singleton.mp done
      exact ⟨run,by rw [phase]; rfl,rfl⟩
    · cases done
  next => cases done

end Calls

section Steps

theorem step_telling {s t : System Proc} {a : Scheduler.Action Proc} (taken : step d s a = some t) {q : Proc} {run : Run}
    (tells : telling (t.phase q) = some run) : telling (s.phase q) = some run ∨ run.id ∈ endedBy s a := by
  have moved := step_phase taken q
  generalize t.phase q = phase at moved tells
  cases moved with
  | stayed => exact .inl tells
  | worked => exact .inl (work_telling tells)
  | completed run' task outcome executing =>
    right
    rcases completion_cases run' task outcome with ⟨cancelled,finish⟩ | ⟨failing,record⟩
    · rw [finish] at tells
      change (if outcome.cancelled = true then none else some run') = some run at tells
      rw [if_pos cancelled] at tells
      cases tells
    · rw [record] at tells
      cases tells
      simp only [endedBy,executing,failing]
      exact List.mem_singleton_self _
  | crashed => cases tells

/-- The flag of a run is set by its cancellation. -/
theorem step_flagged {s t : System Proc} {a : Scheduler.Action Proc} (taken : step d s a = some t) {r' : Run}
    (after : r' ∈ t.db.runs.rows) (asked : r'.cancelRequested = true) :
    ∃ r ∈ s.db.runs.rows, r'.id = r.id ∧
      (r.cancelRequested = true ∨ a = .cancel r.id ∧ r.status.active = true) := by
  rcases step_came taken after with ⟨r,before,same,-⟩ | new
  · refine ⟨r,before,same,?_⟩
    cases step_row taken before after same with
    | kept => exact .inl asked
    | worked p _ _ row => exact .inl (row.flag ▸ asked)
    | cancelled _ active => exact .inr ⟨rfl,active⟩
    | renewed => exact .inl asked
  · have unasked : r'.cancelRequested = false := by cases new <;> rfl
    rw [unasked] at asked
    cases asked

theorem owedAfter_cases {a : Scheduler.Action Proc} {q : Proc} {run : Int} {success : Bool}
    (owes : owedAfter s a q = some (run,success)) :
    s.owed q = some (run,success) ∨ ∃ told, telling (s.system.phase q) = some told ∧ run = told.id := by
  cases a with
  | proceed p =>
    cases phase : s.system.phase p with
    | finish finished task outcome =>
      simp only [owedAfter,phase] at owes
      by_cases same : q = p
      · subst same
        rw [Function.update_self] at owes
        obtain ⟨kind,event,same⟩ := Option.map_eq_some_iff.mp owes
        cases same
        exact .inr ⟨finished,by rw [phase]; exact notified_some event finished task,rfl⟩
      · rw [Function.update_of_ne same] at owes
        exact .inl owes
    | _ =>
      simp only [owedAfter,phase] at owes
      exact .inl owes
  | crash p =>
    by_cases same : q = p
    · subst same
      rw [owedAfter,Function.update_self] at owes
      cases owes
    · rw [owedAfter,Function.update_of_ne same] at owes
      exact .inl owes
  | _ => exact .inl owes

omit [DecidableEq Proc] in
theorem effectsOf_telling {s : System Proc} {a : Scheduler.Action Proc} {effect : Effect} (done : effect ∈ effectsOf s a) :
    ∃ q run, telling (s.phase q) = some run ∧ effect.run = run.id := by
  cases a with
  | proceed p => exact ⟨p,callEffects_telling done⟩
  | _ => cases done

theorem settled_system {a : Scheduler.Action Proc} {system : System Proc} (settled : Settled s)
    (prompt : Prompt s (.system a)) (taken : step d s.system a = some system) :
    Settled ⟨system,owedAfter s a,effectsOf s.system a ++ s.effects,endedBy s.system a ++ s.ended⟩ where
  sound := sound_step settled.sound taken
  telling := by
    intro q run tells
    rcases step_telling taken tells with old | new
    · exact List.mem_append_right _ (settled.telling q run old)
    · exact List.mem_append_left _ new
  owed := by
    intro q run success owes
    rcases owedAfter_cases owes with old | ⟨told,tells,rfl⟩
    · exact List.mem_append_right _ (settled.owed q run success old)
    · exact List.mem_append_right _ (settled.telling q told tells)
  effects := by
    intro effect member
    rcases List.mem_append.mp member with new | old
    · obtain ⟨q,run,tells,same⟩ := effectsOf_telling new
      rw [same]
      exact List.mem_append_right _ (settled.telling q run tells)
    · exact List.mem_append_right _ (settled.effects effect old)
  flagged := by
    intro r' after asked member
    obtain ⟨r,before,same,flag⟩ := step_flagged taken after asked
    rw [same] at member
    rcases List.mem_append.mp member with new | old
    · rcases flag with flagged | ⟨rfl,-⟩
      · cases a with
        | complete p outcome =>
          simp only [endedBy] at new
          split at new
          next run task executing =>
            split at new
            · cases new
            next alive =>
              have unasked := prompt (Bool.eq_false_iff.mpr alive) run task executing r before (List.mem_singleton.mp new)
              rw [unasked] at flagged
              cases flagged
          next => cases new
        | _ => cases new
      · cases new
    · rcases flag with flagged | ⟨rfl,active⟩
      · exact settled.flagged r before flagged old
      · exact prompt r before rfl active old

theorem settled_notify {p : Proc} {event : Int × Bool} (settled : Settled s) (notifies : s.notifies p = some event) :
    Settled { s with owed := Function.update s.owed p none, effects := .notified event.1 event.2 :: s.effects } where
  sound := settled.sound
  telling := settled.telling
  owed := by
    intro q run success owes
    change Function.update s.owed p none q = _ at owes
    by_cases same : q = p
    · subst same
      rw [Function.update_self] at owes
      cases owes
    · rw [Function.update_of_ne same] at owes
      exact settled.owed q run success owes
  effects := by
    intro effect member
    rcases List.mem_cons.mp member with rfl | old
    · have owes : s.owed p = some event := by
        unfold Server.notifies at notifies
        split at notifies
        · cases notifies
        · exact notifies
      exact settled.owed p event.1 event.2 owes
    · exact settled.effects effect old
  flagged := settled.flagged

theorem settled_step {a : Action Proc} (settled : Settled s) (prompt : Prompt s a) (taken : stepServer d s a = some t) :
    Settled t := by
  cases a with
  | system a =>
    simp only [stepServer] at taken
    split at taken
    · cases taken
    · obtain ⟨system,called,rfl⟩ := Option.map_eq_some_iff.mp taken
      exact settled_system settled prompt called
  | notify p =>
    obtain ⟨event,notifies,rfl⟩ := Option.map_eq_some_iff.mp taken
    exact settled_notify settled notifies

omit [DecidableEq Proc] in
theorem settled_init (tasks : Table TaskRow TaskRow.id) (clock : Int) : Settled (Server.init tasks clock : Server Proc) where
  sound := sound_init tasks clock
  telling := by rintro _ _ ⟨⟩
  owed := by rintro _ _ _ ⟨⟩
  effects := by rintro _ ⟨⟩
  flagged := by rintro _ ⟨⟩

theorem accounted_step {a : Action Proc} (taken : stepServer d s a = some t) : Accounted s t := by
  cases a with
  | notify p =>
    obtain ⟨event,notifies,rfl⟩ := Option.map_eq_some_iff.mp taken
    refine ⟨fun changed => absurd rfl changed,fun r before r' after same changed => ?_,fun r' after fresh => ?_⟩
    · rw [s.system.db.runs.key_unique after before same] at changed
      exact absurd rfl changed
    · exact absurd rfl (fresh r' after)
  | system a =>
    simp only [stepServer] at taken
    split at taken
    · cases taken
    obtain ⟨system,called,rfl⟩ := Option.map_eq_some_iff.mp taken
    constructor
    · intro changed
      rcases step_tasks called with same | ⟨p,run,task,outcome,rfl,recording,-⟩
      · exact absurd same changed
      · exact ⟨run.id,by simp only [effectsOf,callEffects,recording]; rfl⟩
    · intro r before r' after same changed
      rcases step_traced called before after same with kept | ⟨p,run,task,outcome,trace,rfl,writing,-⟩
      · exact absurd kept changed
      · exact ⟨run.id,by simp only [effectsOf,callEffects,writing]; rfl⟩
    · intro r' after fresh first points
      rcases step_origin called after with ⟨r,before,same⟩ | new
      · exact absurd same (fresh r before)
      · cases new with
        | manual => cases points
        | fired => cases points
        | retried p run task runAfter scheduling vacant =>
          refine ⟨run,?_,Option.some.inj points⟩
          simp only [effectsOf,callEffects,scheduling,scheduled_iff,vacant]
          rfl

end Steps

variable (d)

/-- Every change of a last error, of a trace, every notification and every retry is the effect of a
run. In every run of the processes in which the executions of a run that is to be cancelled end as
cancelled, and no run is cancelled behind the end of an execution, one that ends cancelled has none. -/
theorem cancelled_without_effect (tasks : Table TaskRow TaskRow.id) (clock : Int) :
    (∀ (s : Server Proc) a t, stepServer d s a = some t → Accounted s t) ∧
      ∀ s : Server Proc, Transition.Reaches (stepServer d) Prompt (Server.init tasks clock) s →
        ∀ r ∈ s.system.db.runs.rows, r.status = .cancelled → ∀ effect ∈ s.effects, effect.run ≠ r.id := by
  refine ⟨fun s a t taken => accounted_step taken,fun s reach r there cancelled effect done same => ?_⟩
  have settled : Settled s :=
    reach.invariant (fun _ _ _ settled prompt taken => settled_step settled prompt taken) (settled_init tasks clock)
  have asked := (settled.sound.rows.rowOk r there).cancelled cancelled
  exact settled.flagged r there asked (same ▸ settled.effects effect done)

section Sample

/-- A run that is claimed, cancelled while it executes and ended by `outcome`. -/
def cancelledWhile (outcome : Outcome) : List (Action Unit) :=
  [.system (.enqueue 1),.system (.proceed ()),.system (.proceed ()),.system (.proceed ()),.system (.proceed ()),
    .system (.cancel 1),.system (.complete () outcome)]

def supervised : Outcome := .err "template execution failed: execution cancelled" []

/-- What has become of the run and of its task, and what has been done. -/
def left (s : Server Unit) : List (Int × RunStatus × Bool) × List (Option String) × List Effect :=
  (s.system.db.runs.rows.map fun r => (r.id,r.status,r.failureTrace.isSome),s.system.db.tasks.rows.map TaskRow.lastError,s.effects)

/-- `Prompt`, checked. -/
def promptBy (s : Server Unit) : Action Unit → Bool
  | .system (.complete () outcome) => outcome.cancelled || s.system.db.runs.rows.all fun r => !r.cancelRequested
  | .system (.cancel _) => s.ended.isEmpty
  | _ => true

theorem prompt_of_check (s : Server Unit) (a : Action Unit) (checked : promptBy s a = true) : Prompt s a := by
  cases a with
  | notify p => trivial
  | system a =>
    cases a with
    | complete p outcome =>
      intro failing run task executing r there same
      simp only [promptBy,failing,Bool.false_or] at checked
      simpa using List.all_eq_true.mp checked r there
    | cancel runId =>
      intro r there same active member
      have none : s.ended = [] := List.isEmpty_iff.mp checked
      rw [none] at member
      cases member
    | _ => trivial

/-- A cancelled execution has no effect. -/
theorem cancelled_in_time : ∃ s : Server Unit,
    Transition.exec (stepServer single) (Server.init (oneTask retryOnce) 0)
      (cancelledWhile supervised ++ [.system (.proceed ())]) = some s ∧
      left s = ([(1,.cancelled,false)],[none],[]) ∧
      ∀ r ∈ s.system.db.runs.rows, r.status = .cancelled → ∀ effect ∈ s.effects, effect.run ≠ r.id := by
  have ran : (Transition.exec (stepServer single) (Server.init (oneTask retryOnce) 0)
      (cancelledWhile supervised ++ [.system (.proceed ())])).map left = some ([(1,.cancelled,false)],[none],[]) := by
    decide +kernel
  obtain ⟨s,ran,summary⟩ := Option.map_eq_some_iff.mp ran
  refine ⟨s,ran,summary,(cancelled_without_effect single (oneTask retryOnce) 0).2 s (Transition.reaches_of_exec ran ?_)⟩
  exact Transition.allowed_of_check prompt_of_check (by decide +kernel)

/-- A run without supervision fails: it is stored as cancelled, with its error, its trace, a
notification of the failure and a retry. -/
theorem cancelled_with_effects : ∃ s : Server Unit,
    Transition.exec (stepServer single) (Server.init (oneTask retryOnce) 0)
      (cancelledWhile refused ++ [.system (.proceed ()),.system (.proceed ()),.system (.proceed ()),.notify (),
        .system (.proceed ()),.system (.proceed ())]) = some s ∧
      left s = ([(1,.cancelled,true),(2,.pending,false)],[some "connection refused"],
        [.retried 1,.notified 1 false,.traced 1,.recorded 1]) ∧
      ¬∀ r ∈ s.system.db.runs.rows, r.status = .cancelled → ∀ effect ∈ s.effects, effect.run ≠ r.id := by
  have ran : (Transition.exec (stepServer single) (Server.init (oneTask retryOnce) 0)
      (cancelledWhile refused ++ [.system (.proceed ()),.system (.proceed ()),.system (.proceed ()),.notify (),
        .system (.proceed ()),.system (.proceed ())])).map left =
      some ([(1,.cancelled,true),(2,.pending,false)],[some "connection refused"],
        [.retried 1,.notified 1 false,.traced 1,.recorded 1]) := by
    decide +kernel
  obtain ⟨s,ran,summary⟩ := Option.map_eq_some_iff.mp ran
  refine ⟨s,ran,summary,fun without => ?_⟩
  have rows : s.system.db.runs.rows.map (fun r => (r.id,r.status,r.failureTrace.isSome)) =
      [(1,.cancelled,true),(2,.pending,false)] := congrArg Prod.fst summary
  have done : s.effects = [.retried 1,.notified 1 false,.traced 1,.recorded 1] :=
    congrArg (fun summary => summary.2.2) summary
  obtain ⟨r,there,same⟩ := List.mem_map.mp (rows ▸ List.mem_cons_self)
  have status : r.status = .cancelled := congrArg (fun row => row.2.1) same
  have named : r.id = 1 := congrArg Prod.fst same
  exact without r there status (.retried 1) (done ▸ List.mem_cons_self) named.symm

end Sample

end Qdrust.Scheduler.Cancellation
