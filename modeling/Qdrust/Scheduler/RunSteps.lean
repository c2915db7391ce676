import Mathlib.Data.List.Sort
import Qdrust.Executor.Events
import Qdrust.Scheduler.System

/-! The steps of runs. A run is executed anew by another attempt once the lease of the last has expired, and
an attempt that has lost its lease may go on: each of them stores its requests as they are reported, while
an index of a run is stored once. -/
namespace Qdrust.Scheduler.RunSteps
open Library Store Transition

structure RunStep where
  id : Int
  runId : Int
  stepIndex : Int
  name : String
  status : RunStatus
  httpStatus : Option Int
  bodySize : Int
  error : Option String
  startedAt : Int
  finishedAt : Int

abbrev StepTable := Table RunStep RunStep.id

def truncateName (name : String) (max : Nat) : String :=
  String.ofList (name.toList.take max) ++ if name.toList.length > max then "..." else ""

/-- The row of a step. -/
def RunStep.row (step : RunStep) (id : Int) : RunStep := { step with id, error := step.error.map Redact.redact }

/-- The condition of the unique index. -/
def RunStep.at (runId stepIndex : Int) (step : RunStep) : Bool := step.runId == runId && step.stepIndex == stepIndex

/-- `None` where the index of the run is taken. -/
def recordRunStep (steps : StepTable) (step : RunStep) : Option StepTable :=
  if steps.rows.any (RunStep.at step.runId step.stepIndex) then none
  else some (steps.insert step.row fun _ => rfl)

def listRunSteps (steps : StepTable) (runId : Int) : List RunStep :=
  (steps.rows.filter fun row => row.runId == runId).insertionSort fun a b => a.stepIndex ≤ b.stepIndex

structure RunObservation where
  steps : List RunStep
  current : Option (Nat × Int)
  trace : List String

/-- `time` writes a timestamp. -/
def formatTraceStep (time : Int → String) (step : Nat) (method url : String) (status : Option Nat) (bodySize : Nat)
    (error : Option String) (startedAt finishedAt : Int) : String :=
  let outcome := match error,status with
    | some error,status =>
      "failed" ++ (status.elim "" fun value => " (HTTP " ++ toString value ++ ")") ++ ": " ++ error
    | none,some status => "HTTP " ++ toString status ++ " · " ++ toString bodySize ++ " bytes · succeeded"
    | none,none => toString bodySize ++ " bytes · succeeded"
  "step " ++ toString (step + 1) ++ "  " ++ method ++ " " ++ Redact.redact url ++ "\n        started:  " ++ time startedAt ++
    "\n        finished: " ++ time finishedAt ++ "\n        " ++ outcome

/-- `i64::try_from`. -/
def toI64 (value : Nat) : Option Int := if value < 2 ^ 63 then some value else none

/-- What the observer makes of an event, and the step it is to store. The clock is read at the start and at the end. -/
def RunObservation.receive (time : Int → String) (runId started finished : Int) (observation : RunObservation) :
    Executor.Event → RunObservation × Option RunStep
  | .started step _ _ => ({ observation with current := some (step,started) },none)
  | .finished step method url status bodySize error =>
    let startedAt := ((observation.current.filter fun current => current.1 = step).map Prod.snd).getD started
    match toI64 step,toI64 bodySize with
    | some stepIndex,some size => ({ observation with
        current := none
        trace := observation.trace ++ [formatTraceStep time step method url status bodySize error startedAt finished] },
      some {
        id := 0
        runId
        stepIndex
        name := truncateName (method ++ " " ++ url) 200
        status := if error.isSome then .failed else .succeeded
        httpStatus := status.map Int.ofNat
        bodySize := size
        error
        startedAt
        finishedAt := finished })
    | _,_ => ({ observation with current := none },none)
  | _ => (observation,none)

/-- The step that stands for an attempt that failed before any was stored. -/
def executionStep (runId : Int) (message : String) (now : Int) : RunStep where
  id := 0
  runId
  stepIndex := 0
  name := "execution"
  status := .failed
  httpStatus := none
  bodySize := 0
  error := some (boundedError message)
  startedAt := now
  finishedAt := now

/-- What an attempt executes. A plain task has no steps. -/
inductive Job where
  | har (executor : Executor.QdExecutor) (context : Executor.ExecutionContext) (program : Har.QdProgram)
  | native (executor : Executor.QdExecutor) (context : Executor.ExecutionContext) (definition : Template.TemplateDefinition)
  | plain

/-- The events for the observer, in the order in which it gets them. -/
def Job.events : Job → List Executor.Event
  | .har executor context program =>
    Executor.stepEvents (Executor.execute executor program (Executor.Execution.initial context)).2.events
  | .native executor context definition =>
    Executor.stepEvents (Executor.executeTemplate executor definition (Executor.Execution.initial context)).2.events
  | .plain => []

/-- `pending` is what the observer has still to get. -/
structure Attempt where
  pending : List Executor.Event
  observation : RunObservation
  concluded : Bool

/-- A step that an attempt has asked the store to record. -/
structure Try (ι : Type) where
  attempt : ι
  step : RunStep

/-- The table, what was tried, the latest first, and the attempts. The code does not keep what was tried. -/
structure System (ι : Type) where
  steps : StepTable
  tries : List (Try ι)
  attempt : ι → Attempt

/-- An event is observed; an execution is cut, so that only some of the events left are reported; or an attempt ends,
whose error may also come from before its first request. -/
inductive Action (ι : Type) where
  | observe (p : ι) (started finished : Int) (fails : Bool)
  | cut (p : ι) (left : Nat)
  | conclude (p : ι) (error : Option String) (now : Int) (fails : Bool)

variable {ι : Type}

def start (jobs : ι → Job) : System ι := ⟨Table.empty,[],fun p => ⟨(jobs p).events,⟨[],none,[]⟩,false⟩⟩

/-- Try to store a step. It may also fail for other reasons. -/
def System.record (s : System ι) (p : ι) (step : RunStep) (fails : Bool) : System ι × Bool :=
  match (if fails then none else recordRunStep s.steps step) with
  | some steps => ({ s with steps, tries := ⟨p,step⟩ :: s.tries },true)
  | none => ({ s with tries := ⟨p,step⟩ :: s.tries },false)

def System.become [DecidableEq ι] (s : System ι) (p : ι) (attempt : Attempt) : System ι :=
  { s with attempt := Function.update s.attempt p attempt }

/-- Store a step, and note it where that has succeeded. -/
def System.note [DecidableEq ι] (s : System ι) (p : ι) (attempt : Attempt) (step : RunStep) (fails : Bool) : System ι :=
  let stored := s.record p step fails
  let steps := if stored.2 then attempt.observation.steps ++ [step] else attempt.observation.steps
  stored.1.become p { attempt with observation := { attempt.observation with steps } }

def step [DecidableEq ι] (time : Int → String) (runOf : ι → Int) (s : System ι) : Action ι → Option (System ι)
  | .observe p started finished fails =>
    match (s.attempt p).pending with
    | [] => none
    | event :: pending => some <|
      match (s.attempt p).observation.receive time (runOf p) started finished event with
      | (observation,some record) => s.note p ⟨pending,observation,(s.attempt p).concluded⟩ record fails
      | (observation,none) => s.become p ⟨pending,observation,(s.attempt p).concluded⟩
  | .cut p left => some (s.become p { s.attempt p with pending := (s.attempt p).pending.take left })
  | .conclude p error now fails =>
    if (s.attempt p).concluded || !(s.attempt p).pending.isEmpty then none
    else some <|
      match error with
      | some message =>
        if !Text.contains (boundedError message) "execution cancelled" && (s.attempt p).observation.steps.isEmpty then
          (s.record p (executionStep (runOf p) message now) fails).1.become p { s.attempt p with concluded := true }
        else s.become p { s.attempt p with concluded := true }
      | none => s.become p { s.attempt p with concluded := true }

/-- The first of the tries for an index of a run. -/
def firstTry (tries : List (Try ι)) (runId stepIndex : Int) : Option (Try ι) :=
  tries.reverse.find? fun tried => tried.step.at runId stepIndex

/-- The numbers of an event are those of the machine. -/
def Fits : Executor.Event → Prop
  | .finished step _ _ _ bodySize _ => step < 2 ^ 63 ∧ bodySize < 2 ^ 63
  | _ => True

/-- The store fails for no other reason than that an index is taken. -/
def Reliable (s : System ι) : Action ι → Prop
  | .observe p _ _ fails => fails = false ∧ ∀ event ∈ (s.attempt p).pending.head?, Fits event
  | .cut _ _ => True
  | .conclude _ _ _ fails => fails = false

section Sequences

/-- What an observer still gets of requests reported one after the other: it has finished `h` of them, and `running` says
that another is started. -/
inductive Sequence : Bool → Nat → List Executor.Event → Prop
  | nil (running : Bool) (h : Nat) : Sequence running h []
  | started {h : Nat} {rest : List Executor.Event} (method url : String) (then_ : Sequence true h rest) :
      Sequence false h (.started h method url :: rest)
  | finished {h : Nat} {rest : List Executor.Event} (method url : String) (status : Option Nat) (bodySize : Nat)
      (error : Option String) (then_ : Sequence false (h + 1) rest) :
      Sequence true h (.finished h method url status bodySize error :: rest)

theorem sequence_reported (h : Nat) (reports : List Executor.Report) : Sequence false h (Executor.reported h reports) := by
  induction reports generalizing h with
  | nil => exact .nil false h
  | cons report rest ih => exact .started _ _ (.finished _ _ _ _ _ (ih (h + 1)))

theorem Sequence.take {running : Bool} {h : Nat} {events : List Executor.Event} (sequence : Sequence running h events) (n : Nat) :
    Sequence running h (events.take n) := by
  induction sequence generalizing n with
  | nil running h =>
    rw [List.take_nil]
    exact .nil running h
  | started method url _ ih =>
    cases n with
    | zero => exact .nil _ _
    | succ n => exact .started method url (ih n)
  | finished method url status bodySize error _ ih =>
    cases n with
    | zero => exact .nil _ _
    | succ n => exact .finished method url status bodySize error (ih n)

theorem sequence_events (job : Job) : Sequence false 0 job.events := by
  cases job with
  | har executor context program =>
    obtain ⟨done,failed,events,-⟩ := Executor.reported_execute executor context program
    rw [Job.events,events]
    exact sequence_reported 0 _
  | native executor context definition =>
    obtain ⟨done,failed,events,-⟩ := Executor.reported_executeTemplate executor context definition
    rw [Job.events,events]
    exact sequence_reported 0 _
  | plain => exact .nil false 0

end Sequences

section Records

variable {s : System ι} {p : ι} {record : RunStep} {fails : Bool} {steps : StepTable} {tries : List (Try ι)}

theorem at_iff {runId stepIndex : Int} {step : RunStep} :
    step.at runId stepIndex = true ↔ step.runId = runId ∧ step.stepIndex = stepIndex := by
  simp [RunStep.at]

theorem recordRunStep_cases : (recordRunStep steps record = none ∧ ∃ row ∈ steps.rows, row.at record.runId record.stepIndex = true) ∨
    ∃ after, recordRunStep steps record = some after ∧ after.rows = steps.rows ++ [record.row (steps.last + 1)] ∧
      ∀ row ∈ steps.rows, row.at record.runId record.stepIndex = false := by
  unfold recordRunStep
  split
  · rename_i taken
    exact .inl ⟨rfl,List.any_eq_true.mp taken⟩
  · rename_i free
    refine .inr ⟨_,rfl,rfl,fun row there => ?_⟩
    simpa using List.any_eq_false.mp (Bool.eq_false_of_not_eq_true free) row there

/-- What it is to try and store a step. -/
inductive Recorded (s : System ι) (p : ι) (record : RunStep) (fails : Bool) : System ι × Bool → Prop
  | stored {after : StepTable} (rows : after.rows = s.steps.rows ++ [record.row (s.steps.last + 1)])
      (free : ∀ row ∈ s.steps.rows, row.at record.runId record.stepIndex = false) :
      Recorded s p record fails (⟨after,⟨p,record⟩ :: s.tries,s.attempt⟩,true)
  | refused (taken : fails = true ∨ ∃ row ∈ s.steps.rows, row.at record.runId record.stepIndex = true) :
      Recorded s p record fails (⟨s.steps,⟨p,record⟩ :: s.tries,s.attempt⟩,false)

theorem recorded (s : System ι) (p : ι) (record : RunStep) (fails : Bool) : Recorded s p record fails (s.record p record fails) := by
  unfold System.record
  cases fails with
  | true => exact .refused (.inl rfl)
  | false =>
    rcases @recordRunStep_cases record s.steps with ⟨none,taken⟩ | ⟨after,some,rows,free⟩
    · rw [none]
      exact .refused (.inr taken)
    · rw [some]
      exact .stored rows free

theorem firstTry_cons (tried : Try ι) (tries : List (Try ι)) (runId stepIndex : Int) : firstTry (tried :: tries) runId stepIndex =
    (firstTry tries runId stepIndex).or (if tried.step.at runId stepIndex then some tried else none) := by
  rw [firstTry,List.reverse_cons,List.find?_append,List.find?_singleton]
  rfl

theorem firstTry_eq_none {runId stepIndex : Int} :
    firstTry tries runId stepIndex = none ↔ ∀ tried ∈ tries, tried.step.at runId stepIndex = false := by
  simp [firstTry]

theorem firstTry_mem {runId stepIndex : Int} {tried : Try ι} (first : firstTry tries runId stepIndex = some tried) :
    tried ∈ tries ∧ tried.step.at runId stepIndex = true :=
  ⟨List.mem_reverse.mp (List.mem_of_find?_eq_some first),List.find?_some (p := fun (tried : Try ι) => tried.step.at runId stepIndex) first⟩

theorem firstTry_earlier {runId stepIndex : Int} {tried : Try ι} (first : firstTry tries runId stepIndex = some tried)
    (latest : Try ι) : firstTry (latest :: tries) runId stepIndex = some tried := by
  rw [firstTry_cons,first,Option.some_or]

/-- The first try for an index was the first before, or is the latest. -/
theorem firstTry_latest {runId stepIndex : Int} {tried latest : Try ι}
    (first : firstTry (latest :: tries) runId stepIndex = some tried) : firstTry tries runId stepIndex = some tried ∨
      firstTry tries runId stepIndex = none ∧ tried = latest ∧ latest.step.at runId stepIndex = true := by
  rw [firstTry_cons] at first
  cases before : firstTry tries runId stepIndex with
  | some earlier =>
    rw [before,Option.some_or] at first
    exact .inl first
  | none =>
    rw [before,Option.none_or] at first
    split at first
    · rename_i same
      cases first
      exact .inr ⟨rfl,rfl,same⟩
    · cases first

end Records

section Changes

variable [DecidableEq ι] {time : Int → String} {runOf : ι → Int} {s t : System ι}

/-- What an action does. -/
inductive Change (time : Int → String) (runOf : ι → Int) (s : System ι) : Action ι → System ι → Prop
  | received {p : ι} {started finished : Int} {fails : Bool} {event : Executor.Event} {pending : List Executor.Event}
      {observation : RunObservation} (here : (s.attempt p).pending = event :: pending)
      (receives : (s.attempt p).observation.receive time (runOf p) started finished event = (observation,none)) :
      Change time runOf s (.observe p started finished fails) (s.become p ⟨pending,observation,(s.attempt p).concluded⟩)
  | noted {p : ι} {started finished : Int} {fails : Bool} {event : Executor.Event} {pending : List Executor.Event}
      {observation : RunObservation} {record : RunStep} (here : (s.attempt p).pending = event :: pending)
      (receives : (s.attempt p).observation.receive time (runOf p) started finished event = (observation,some record)) :
      Change time runOf s (.observe p started finished fails)
        (s.note p ⟨pending,observation,(s.attempt p).concluded⟩ record fails)
  | cut (p : ι) (left : Nat) : Change time runOf s (.cut p left)
      (s.become p { s.attempt p with pending := (s.attempt p).pending.take left })
  | ended {p : ι} {error : Option String} {now : Int} {fails : Bool} (unconcluded : (s.attempt p).concluded = false)
      (drained : (s.attempt p).pending = []) :
      Change time runOf s (.conclude p error now fails) (s.become p { s.attempt p with concluded := true })
  | failed {p : ι} {message : String} {now : Int} {fails : Bool} (unconcluded : (s.attempt p).concluded = false)
      (drained : (s.attempt p).pending = []) (empty : (s.attempt p).observation.steps = []) :
      Change time runOf s (.conclude p (some message) now fails)
        ((s.record p (executionStep (runOf p) message now) fails).1.become p { s.attempt p with concluded := true })

theorem step_change {a : Action ι} (taken : step time runOf s a = some t) : Change time runOf s a t := by
  cases a with
  | observe p started finished fails =>
    simp only [step] at taken
    split at taken
    · cases taken
    · rename_i event pending here
      cases taken
      cases receives : (s.attempt p).observation.receive time (runOf p) started finished event with
      | mk observation record =>
        cases record with
        | none => exact .received here receives
        | some record => exact .noted here receives
  | cut p left =>
    cases taken
    exact .cut p left
  | conclude p error now fails =>
    simp only [step] at taken
    split at taken
    · cases taken
    · rename_i live
      have unconcluded : (s.attempt p).concluded = false := by simp_all
      have drained : (s.attempt p).pending = [] := by simp_all
      cases error with
      | none =>
        cases taken
        exact .ended unconcluded drained
      | some message =>
        cases taken
        dsimp only
        split
        · rename_i failed
          exact .failed unconcluded drained (List.isEmpty_iff.mp (Bool.and_eq_true_iff.mp failed).2)
        · exact .ended unconcluded drained

theorem receive_steps {observation observation' : RunObservation} {runId started finished : Int} {event : Executor.Event}
    {record : Option RunStep} (receives : observation.receive time runId started finished event = (observation',record)) :
    observation'.steps = observation.steps := by
  cases event with
  | finished step method url status bodySize error =>
    simp only [RunObservation.receive] at receives
    split at receives <;> cases receives <;> rfl
  | _ => cases receives; rfl

/-- A request that is finished is to be stored under its own number. -/
theorem receive_finished {observation observation' : RunObservation} {runId started finished : Int} {step bodySize : Nat}
    {method url : String} {status : Option Nat} {error : Option String} {record : Option RunStep}
    (fits : Fits (.finished step method url status bodySize error))
    (receives : observation.receive time runId started finished (.finished step method url status bodySize error) =
      (observation',record)) : ∃ new, record = some new ∧ new.stepIndex = step := by
  simp only [RunObservation.receive,toI64,if_pos fits.1,if_pos fits.2] at receives
  cases receives
  exact ⟨_,rfl,rfl⟩

/-- A step that is to be stored is of the run that is executed. -/
theorem receive_runId {observation observation' : RunObservation} {runId started finished : Int} {event : Executor.Event}
    {record : RunStep} (receives : observation.receive time runId started finished event = (observation',some record)) :
    record.runId = runId := by
  cases event with
  | finished step method url status bodySize error =>
    simp only [RunObservation.receive] at receives
    split at receives
    · cases receives
      rfl
    · cases receives
  | _ => cases receives

end Changes

section Stored

variable [DecidableEq ι] {time : Int → String} {runOf : ι → Int} {s t : System ι}

/-- Whatever fails: an index of a run is stored once, and what is stored was tried. -/
structure Stored (runOf : ι → Int) (s : System ι) : Prop where
  unique : ∀ row ∈ s.steps.rows, ∀ row' ∈ s.steps.rows, row.runId = row'.runId → row.stepIndex = row'.stepIndex → row = row'
  tried : ∀ row ∈ s.steps.rows, ∃ tried ∈ s.tries, tried.step.runId = runOf tried.attempt ∧ row = tried.step.row row.id

omit [DecidableEq ι] in
theorem stored_record (stored : Stored runOf s) {p : ι} {record : RunStep} (fails : Bool) (own : record.runId = runOf p) :
    Stored runOf (s.record p record fails).1 := by
  have kept : ∀ row ∈ s.steps.rows, ∃ tried ∈ (⟨p,record⟩ :: s.tries : List (Try ι)),
      tried.step.runId = runOf tried.attempt ∧ row = tried.step.row row.id := by
    intro row there
    obtain ⟨tried,before,rest⟩ := stored.tried row there
    exact ⟨tried,List.mem_cons_of_mem _ before,rest⟩
  have moved := recorded s p record fails
  generalize s.record p record fails = result at moved ⊢
  cases moved with
  | refused taken => exact ⟨stored.unique,kept⟩
  | @stored after rows free =>
    refine ⟨?_,?_⟩
    · rw [rows]
      intro row there row' there' sameRun sameIndex
      rcases List.mem_append.mp there with old | new <;> rcases List.mem_append.mp there' with old' | new'
      · exact stored.unique row old row' old' sameRun sameIndex
      · rw [List.mem_singleton.mp new'] at sameRun sameIndex
        have taken : row.at record.runId record.stepIndex = true := at_iff.mpr ⟨sameRun,sameIndex⟩
        rw [free row old] at taken
        cases taken
      · rw [List.mem_singleton.mp new] at sameRun sameIndex
        have taken : row'.at record.runId record.stepIndex = true := at_iff.mpr ⟨sameRun.symm,sameIndex.symm⟩
        rw [free row' old'] at taken
        cases taken
      · rw [List.mem_singleton.mp new,List.mem_singleton.mp new']
    · rw [rows]
      intro row there
      rcases List.mem_append.mp there with old | new
      · exact kept row old
      · rw [List.mem_singleton.mp new]
        exact ⟨_,List.mem_cons_self,own,rfl⟩

theorem stored_step (stored : Stored runOf s) {a : Action ι} (taken : step time runOf s a = some t) : Stored runOf t := by
  cases step_change taken with
  | received | cut | ended => exact ⟨stored.unique,stored.tried⟩
  | @noted p _ _ fails _ _ _ record here receives =>
    have after := stored_record stored fails (receive_runId receives)
    exact ⟨after.unique,after.tried⟩
  | @failed p message now fails =>
    have after := stored_record stored fails (rfl : (executionStep (runOf p) message now).runId = runOf p)
    exact ⟨after.unique,after.tried⟩

end Stored

section Reliable

variable [DecidableEq ι] {time : Int → String} {runOf : ι → Int} {s t : System ι}

/-- What was tried first is what is stored. -/
structure Faithful (s : System ι) : Prop where
  first : ∀ row ∈ s.steps.rows, ∃ tried, firstTry s.tries row.runId row.stepIndex = some tried ∧ row = tried.step.row row.id
  complete : ∀ tried ∈ s.tries, ∃ row ∈ s.steps.rows, row.at tried.step.runId tried.step.stepIndex = true

/-- The steps that an attempt has tried to store, in order. -/
def own (p : ι) (tries : List (Try ι)) : List RunStep :=
  (tries.reverse.filter fun tried => tried.attempt = p).map Try.step

/-- The indexes below `n`. -/
def upTo (n : Nat) : List Int := (List.range n).map Int.ofNat

/-- Some index of the attempt's run was tried by the attempt first. -/
def Leads (runOf : ι → Int) (s : System ι) (p : ι) : Prop :=
  ∃ k tried, firstTry s.tries (runOf p) k = some tried ∧ tried.attempt = p

/-- An attempt tries the indexes in order, and notes what was stored. One that has nothing noted may try the first index
again when it has failed. -/
structure Progress (runOf : ι → Int) (s : System ι) (p : ι) : Prop where
  drained : (s.attempt p).concluded = true → (s.attempt p).pending = []
  ofRun : ∀ step ∈ own p s.tries, step.runId = runOf p
  order : ∃ running h, Sequence running h (s.attempt p).pending ∧
    ((own p s.tries).map RunStep.stepIndex = upTo h ∧
        ((s.attempt p).concluded = false → Leads runOf s p → (s.attempt p).observation.steps ≠ []) ∨
      (s.attempt p).concluded = true ∧ (own p s.tries).map RunStep.stepIndex = upTo h ++ [0] ∧
        (h = 0 ∨ ∃ tried, firstTry s.tries (runOf p) 0 = some tried ∧ tried.attempt ≠ p))

theorem own_self (p : ι) (record : RunStep) (tries : List (Try ι)) : own p (⟨p,record⟩ :: tries) = own p tries ++ [record] := by
  simp [own]

theorem own_other {p q : ι} (other : q ≠ p) (record : RunStep) (tries : List (Try ι)) :
    own p (⟨q,record⟩ :: tries) = own p tries := by
  simp [own,other]

theorem mem_own {p : ι} {tries : List (Try ι)} {step : RunStep} :
    step ∈ own p tries ↔ ∃ tried ∈ tries, tried.attempt = p ∧ tried.step = step := by
  simp [own,and_assoc]

theorem upTo_succ (n : Nat) : upTo (n + 1) = upTo n ++ [(n : Int)] := by
  rw [upTo,List.range_succ,List.map_append]
  rfl

theorem mem_upTo {n : Nat} {k : Int} : k ∈ upTo n ↔ 0 ≤ k ∧ k < n := by
  rw [upTo,List.mem_map]
  constructor
  · rintro ⟨j,there,rfl⟩
    have below := List.mem_range.mp there
    constructor
    · exact Int.natCast_nonneg j
    · exact Int.ofNat_lt.mpr below
  · rintro ⟨least,below⟩
    exact ⟨k.toNat,List.mem_range.mpr (by omega),Int.toNat_of_nonneg least⟩

omit [DecidableEq ι] in
theorem faithful_record (faithful : Faithful s) (p : ι) (record : RunStep) : Faithful (s.record p record false).1 := by
  have moved := recorded s p record false
  generalize s.record p record false = result at moved ⊢
  have kept : ∀ row ∈ s.steps.rows, ∃ tried, firstTry (⟨p,record⟩ :: s.tries) row.runId row.stepIndex = some tried ∧
      row = tried.step.row row.id := by
    intro row there
    obtain ⟨tried,first,same⟩ := faithful.first row there
    exact ⟨tried,firstTry_earlier first _,same⟩
  cases moved with
  | refused taken =>
    refine ⟨kept,fun tried there => ?_⟩
    rcases List.mem_cons.mp there with rfl | before
    · exact taken.resolve_left Bool.false_ne_true
    · exact faithful.complete tried before
  | @stored after rows free =>
    have new : firstTry s.tries record.runId record.stepIndex = none := by
      rw [firstTry_eq_none]
      intro tried there
      by_contra same
      obtain ⟨sameRun,sameIndex⟩ := at_iff.mp (Bool.eq_true_of_not_eq_false same)
      obtain ⟨row,stored,taken⟩ := faithful.complete tried there
      rw [sameRun,sameIndex,free row stored] at taken
      cases taken
    refine ⟨?_,?_⟩
    · change ∀ row ∈ after.rows, _
      rw [rows]
      intro row there
      rcases List.mem_append.mp there with old | last
      · exact kept row old
      · rw [List.mem_singleton.mp last]
        refine ⟨⟨p,record⟩,?_,rfl⟩
        have named : record.at record.runId record.stepIndex = true := at_iff.mpr ⟨rfl,rfl⟩
        change firstTry _ record.runId record.stepIndex = _
        rw [firstTry_cons,new,Option.none_or,if_pos named]
    · change ∀ tried ∈ _, ∃ row ∈ after.rows, _
      rw [rows]
      intro tried there
      rcases List.mem_cons.mp there with rfl | before
      · exact ⟨_,List.mem_append_right _ List.mem_cons_self,at_iff.mpr ⟨rfl,rfl⟩⟩
      · obtain ⟨row,stored,same⟩ := faithful.complete tried before
        exact ⟨row,List.mem_append_left _ stored,same⟩

theorem faithful_step (faithful : Faithful s) {a : Action ι} (reliable : Reliable s a) (taken : step time runOf s a = some t) :
    Faithful t := by
  cases step_change taken with
  | received | cut | ended => exact ⟨faithful.first,faithful.complete⟩
  | @noted p _ _ fails _ _ _ record here receives =>
    have after := faithful_record faithful p record
    rw [← reliable.1] at after
    exact ⟨after.first,after.complete⟩
  | @failed p message now fails =>
    have after := faithful_record faithful p (executionStep (runOf p) message now)
    rw [← (reliable : fails = false)] at after
    exact ⟨after.first,after.complete⟩

/-- Another attempt tries to store a step. -/
theorem progress_other {p q : ι} (progress : Progress runOf s p) (other : q ≠ p) {record : RunStep}
    (attempt : t.attempt p = s.attempt p) (tries : t.tries = ⟨q,record⟩ :: s.tries) : Progress runOf t p where
  drained := by
    rw [attempt]
    exact progress.drained
  ofRun := by
    rw [tries,own_other other]
    exact progress.ofRun
  order := by
    obtain ⟨running,h,sequence,stage⟩ := progress.order
    rw [attempt,tries,own_other other]
    refine ⟨running,h,sequence,?_⟩
    rcases stage with ⟨indexes,notes⟩ | ⟨concluded,indexes,late⟩
    · refine .inl ⟨indexes,fun live leads => notes live ?_⟩
      obtain ⟨k,tried,first,mine⟩ := leads
      rw [tries] at first
      rcases firstTry_latest first with before | ⟨-,rfl,-⟩
      · exact ⟨k,tried,before,mine⟩
      · exact absurd mine other
    · refine .inr ⟨concluded,indexes,late.imp_right ?_⟩
      rintro ⟨tried,first,theirs⟩
      exact ⟨tried,firstTry_earlier first _,theirs⟩

/-- Nothing is tried, and the attempt is as before. -/
theorem progress_still {p : ι} (progress : Progress runOf s p) (attempt : t.attempt p = s.attempt p) (tries : t.tries = s.tries) :
    Progress runOf t p := by
  obtain ⟨drained,ofRun,order⟩ := progress
  rw [← attempt] at drained order
  rw [← tries] at ofRun order
  refine ⟨drained,ofRun,?_⟩
  unfold Leads at order ⊢
  rw [tries] at order ⊢
  exact order

omit [DecidableEq ι] in
theorem record_tries (p : ι) (record : RunStep) (fails : Bool) :
    (s.record p record fails).1.tries = ⟨p,record⟩ :: s.tries ∧ (s.record p record fails).1.attempt = s.attempt := by
  have moved := recorded s p record fails
  generalize s.record p record fails = result at moved ⊢
  cases moved <;> exact ⟨rfl,rfl⟩

omit [DecidableEq ι] in
/-- An attempt that has the first try of an index of its run has stored it. -/
theorem leads_record (faithful : Faithful s) {p : ι} {record : RunStep} (leads : Leads runOf (s.record p record false).1 p) :
    Leads runOf s p ∨ (s.record p record false).2 = true := by
  have moved := recorded s p record false
  generalize s.record p record false = result at moved leads ⊢
  cases moved with
  | stored rows free => exact .inr rfl
  | refused taken =>
    obtain ⟨k,tried,first,mine⟩ := leads
    rcases firstTry_latest first with before | ⟨none,rfl,same⟩
    · exact .inl ⟨k,tried,before,mine⟩
    · obtain ⟨row,there,same'⟩ := taken.resolve_left Bool.false_ne_true
      obtain ⟨sameRun,sameIndex⟩ := at_iff.mp same
      obtain ⟨rowRun,rowIndex⟩ := at_iff.mp same'
      obtain ⟨earlier,first',-⟩ := faithful.first row there
      rw [rowRun,rowIndex,sameRun,sameIndex,none] at first'
      cases first'

theorem become_self (p : ι) (attempt : Attempt) : (s.become p attempt).attempt p = attempt := by
  simp [System.become]

theorem become_other {p q : ι} (other : q ≠ p) (attempt : Attempt) : (s.become p attempt).attempt q = s.attempt q := by
  simp [System.become,other]

theorem progress_received {p : ι} (progress : Progress runOf s p) {started finished : Int} {event : Executor.Event}
    {pending : List Executor.Event} {observation : RunObservation} (here : (s.attempt p).pending = event :: pending)
    (fits : Fits event)
    (receives : (s.attempt p).observation.receive time (runOf p) started finished event = (observation,none)) :
    Progress runOf (s.become p ⟨pending,observation,(s.attempt p).concluded⟩) p := by
  have live : (s.attempt p).concluded = false := by
    by_contra concluded
    rw [progress.drained (Bool.eq_true_of_not_eq_false concluded)] at here
    cases here
  obtain ⟨running,h,sequence,stage⟩ := progress.order
  rw [here] at sequence
  constructor
  · rw [become_self,live]
    exact fun reached => absurd reached Bool.false_ne_true
  · exact progress.ofRun
  · rw [become_self]
    cases sequence with
    | started method url rest =>
      refine ⟨true,h,rest,.inl ?_⟩
      rcases stage with ⟨indexes,notes⟩ | ⟨concluded,-⟩
      · refine ⟨indexes,fun _ leads => ?_⟩
        change observation.steps ≠ []
        rw [receive_steps receives]
        exact notes live leads
      · rw [live] at concluded
        cases concluded
    | finished method url status bodySize error rest =>
      obtain ⟨_,⟨⟩,-⟩ := receive_finished fits receives

theorem progress_noted {p : ι} (faithful : Faithful s) (progress : Progress runOf s p) {started finished : Int}
    {event : Executor.Event} {pending : List Executor.Event} {observation : RunObservation} {record : RunStep}
    (here : (s.attempt p).pending = event :: pending) (fits : Fits event)
    (receives : (s.attempt p).observation.receive time (runOf p) started finished event = (observation,some record)) :
    Progress runOf (s.note p ⟨pending,observation,(s.attempt p).concluded⟩ record false) p := by
  have live : (s.attempt p).concluded = false := by
    by_contra concluded
    rw [progress.drained (Bool.eq_true_of_not_eq_false concluded)] at here
    cases here
  obtain ⟨running,h,sequence,stage⟩ := progress.order
  rw [here] at sequence
  have tries : (s.note p ⟨pending,observation,(s.attempt p).concluded⟩ record false).tries = ⟨p,record⟩ :: s.tries :=
    (record_tries p record false).1
  constructor
  · rw [System.note,become_self,live]
    exact fun reached => absurd reached Bool.false_ne_true
  · rw [tries,own_self]
    intro step there
    rcases List.mem_append.mp there with before | last
    · exact progress.ofRun step before
    · rw [List.mem_singleton.mp last]
      exact receive_runId receives
  · cases sequence with
    | started method url rest => cases receives
    | finished method url status bodySize error rest =>
      obtain ⟨_,⟨⟩,numbered⟩ := receive_finished fits receives
      rcases stage with ⟨indexes,notes⟩ | ⟨concluded,-⟩
      · refine ⟨false,h + 1,?_,.inl ⟨?_,fun _ leads => ?_⟩⟩
        · rw [System.note,become_self]
          exact rest
        · rw [tries,own_self,List.map_append,indexes,upTo_succ]
          exact congrArg (fun last => upTo h ++ [last]) numbered
        · rw [System.note,become_self]
          rcases leads_record faithful leads with before | stored
          · have noted := notes live before
            rw [← receive_steps receives] at noted
            change (if (s.record p record false).2 then observation.steps ++ [record] else observation.steps) ≠ []
            split
            · exact List.append_ne_nil_of_right_ne_nil _ (List.cons_ne_nil _ _)
            · exact noted
          · change (if (s.record p record false).2 then observation.steps ++ [record] else observation.steps) ≠ []
            rw [stored]
            exact List.append_ne_nil_of_right_ne_nil _ (List.cons_ne_nil _ _)
      · rw [live] at concluded
        cases concluded

theorem progress_cut {p : ι} (progress : Progress runOf s p) (left : Nat) :
    Progress runOf (s.become p { s.attempt p with pending := (s.attempt p).pending.take left }) p := by
  obtain ⟨running,h,sequence,stage⟩ := progress.order
  constructor
  · rw [become_self]
    intro concluded
    change (s.attempt p).pending.take left = []
    rw [progress.drained concluded,List.take_nil]
  · exact progress.ofRun
  · rw [become_self]
    exact ⟨running,h,sequence.take left,stage⟩

theorem progress_ended {p : ι} (progress : Progress runOf s p) (live : (s.attempt p).concluded = false)
    (drained : (s.attempt p).pending = []) : Progress runOf (s.become p { s.attempt p with concluded := true }) p := by
  obtain ⟨running,h,sequence,stage⟩ := progress.order
  constructor
  · rw [become_self]
    exact fun _ => drained
  · exact progress.ofRun
  · rw [become_self]
    refine ⟨running,h,sequence,.inl ?_⟩
    rcases stage with ⟨indexes,-⟩ | ⟨concluded,-⟩
    · exact ⟨indexes,fun live => absurd live.symm Bool.false_ne_true⟩
    · rw [live] at concluded
      cases concluded

theorem progress_failed {p : ι} (progress : Progress runOf s p) (live : (s.attempt p).concluded = false)
    (drained : (s.attempt p).pending = []) (empty : (s.attempt p).observation.steps = []) (message : String) (now : Int)
    (fails : Bool) : Progress runOf ((s.record p (executionStep (runOf p) message now) fails).1.become p
      { s.attempt p with concluded := true }) p := by
  obtain ⟨running,h,sequence,stage⟩ := progress.order
  have tries := (record_tries (s := s) p (executionStep (runOf p) message now) fails).1
  rcases stage with ⟨indexes,notes⟩ | ⟨concluded,-⟩
  · constructor
    · rw [become_self]
      exact fun _ => drained
    · change ∀ step ∈ own p (s.record p _ fails).1.tries, _
      rw [tries,own_self]
      intro step there
      rcases List.mem_append.mp there with before | last
      · exact progress.ofRun step before
      · rw [List.mem_singleton.mp last]
        rfl
    · rw [become_self]
      refine ⟨running,h,sequence,.inr ⟨rfl,?_,?_⟩⟩
      · change (own p (s.record p _ fails).1.tries).map _ = _
        rw [tries,own_self,List.map_append,indexes]
        rfl
      · -- The first index was tried before, and by another first, as nothing is noted.
        change h = 0 ∨ ∃ tried, firstTry (s.record p _ fails).1.tries _ _ = _ ∧ _
        rw [tries]
        refine (Nat.eq_zero_or_pos h).imp_right fun some => ?_
        have zero : (0 : Int) ∈ (own p s.tries).map RunStep.stepIndex := by
          rw [indexes,mem_upTo]
          omega
        obtain ⟨step,there,index⟩ := List.mem_map.mp zero
        obtain ⟨tried,before,-,rfl⟩ := mem_own.mp there
        cases first : firstTry s.tries (runOf p) 0 with
        | none =>
          have same : tried.step.at (runOf p) 0 = true := at_iff.mpr ⟨progress.ofRun _ there,index⟩
          rw [firstTry_eq_none.mp first tried before] at same
          cases same
        | some leader =>
          exact ⟨leader,firstTry_earlier first _,fun mine => notes live ⟨0,leader,first,mine⟩ empty⟩
  · rw [live] at concluded
    cases concluded

theorem progress_step (faithful : Faithful s) (progress : ∀ p, Progress runOf s p) {a : Action ι} (reliable : Reliable s a)
    (taken : step time runOf s a = some t) (q : ι) : Progress runOf t q := by
  cases step_change taken with
  | @received p _ _ _ event _ _ here receives =>
    by_cases same : q = p
    · subst same
      refine progress_received (progress q) here (reliable.2 event ?_) receives
      rw [here]
      rfl
    · exact progress_still (progress q) (become_other same _) rfl
  | @noted p _ _ fails event _ _ record here receives =>
    by_cases same : q = p
    · subst same
      have noted := progress_noted faithful (progress q) here (reliable.2 event (by rw [here]; rfl)) receives
      rw [← reliable.1] at noted
      exact noted
    · obtain ⟨tries,attempts⟩ := record_tries (s := s) p record fails
      refine progress_other (progress q) (Ne.symm same) ?_ tries
      rw [System.note,become_other same,attempts]
  | cut p left =>
    by_cases same : q = p
    · subst same
      exact progress_cut (progress q) left
    · exact progress_still (progress q) (become_other same _) rfl
  | @ended p _ _ _ unconcluded drained =>
    by_cases same : q = p
    · subst same
      exact progress_ended (progress q) unconcluded drained
    · exact progress_still (progress q) (become_other same _) rfl
  | @failed p message now fails unconcluded drained empty =>
    by_cases same : q = p
    · subst same
      exact progress_failed (progress q) unconcluded drained empty message now fails
    · obtain ⟨tries,attempts⟩ := record_tries (s := s) p (executionStep (runOf p) message now) fails
      refine progress_other (progress q) (Ne.symm same) ?_ tries
      rw [become_other same,attempts]

theorem progress_start (jobs : ι → Job) (p : ι) : Progress runOf (start jobs) p where
  drained := fun concluded => absurd concluded Bool.false_ne_true
  ofRun := fun _ there => absurd there List.not_mem_nil
  order := ⟨false,0,sequence_events (jobs p),.inl ⟨rfl,fun _ leads => by obtain ⟨_,_,⟨⟩,-⟩ := leads⟩⟩

omit [DecidableEq ι] in
theorem stored_start (jobs : ι → Job) : Stored runOf (start jobs) :=
  ⟨fun _ there => absurd there List.not_mem_nil,fun _ there => absurd there List.not_mem_nil⟩

omit [DecidableEq ι] in
theorem faithful_start (jobs : ι → Job) : Faithful (start jobs) :=
  ⟨fun _ there => absurd there List.not_mem_nil,fun _ there => absurd there List.not_mem_nil⟩

theorem stored_run {jobs : ι → Job} {reliable : System ι → Action ι → Prop}
    (reach : Reaches (step time runOf) reliable (start jobs) t) : Stored runOf t :=
  reach.invariant (fun _ _ _ stored _ taken => stored_step stored taken) (stored_start jobs)

theorem reliable_run {jobs : ι → Job} (reach : Reaches (step time runOf) Reliable (start jobs) t) :
    Faithful t ∧ ∀ p, Progress runOf t p := by
  have keep : ∀ s a t, (Faithful s ∧ ∀ p, Progress runOf s p) → Reliable s a → step time runOf s a = some t →
      Faithful t ∧ ∀ p, Progress runOf t p := by
    rintro s a t ⟨faithful,progress⟩ reliable taken
    exact ⟨faithful_step faithful reliable taken,progress_step faithful progress reliable taken⟩
  exact reach.invariant keep ⟨faithful_start jobs,progress_start jobs⟩

end Reliable

section Listing

variable [DecidableEq ι] {time : Int → String} {runOf : ι → Int} {jobs : ι → Job} {s t : System ι} {runId : Int}

theorem mem_listRunSteps {steps : StepTable} {row : RunStep} :
    row ∈ listRunSteps steps runId ↔ row ∈ steps.rows ∧ row.runId = runId := by
  simp [listRunSteps]

omit [DecidableEq ι] in
/-- The listing is in strict order, as no index is stored twice. -/
theorem listed_ascending (stored : Stored runOf s) :
    (listRunSteps s.steps runId).Pairwise fun a b => a.stepIndex < b.stepIndex := by
  have sorted := List.pairwise_insertionSort (fun a b : RunStep => a.stepIndex ≤ b.stepIndex)
    (s.steps.rows.filter fun row => row.runId == runId)
  have keys : (s.steps.rows.map RunStep.id).Nodup := s.steps.ascending.imp ne_of_lt
  have distinct : (listRunSteps s.steps runId).Nodup :=
    (List.perm_insertionSort _ _).nodup_iff.mpr ((List.Nodup.of_map _ keys).filter _)
  refine (sorted.and distinct).imp_of_mem fun {a b} first second ⟨below,other⟩ => lt_of_le_of_ne below fun same => other ?_
  obtain ⟨there,ofRun⟩ := mem_listRunSteps.mp first
  obtain ⟨there',ofRun'⟩ := mem_listRunSteps.mp second
  exact stored.unique a there b there' (ofRun.trans ofRun'.symm) same

/-- Ascending numbers from `least` without a gap. -/
theorem range_of_ascending (least : Int) {numbers : List Int} (ascending : numbers.Pairwise (· < ·))
    (above : ∀ k ∈ numbers, least ≤ k) (closed : ∀ k ∈ numbers, ∀ j, least ≤ j → j < k → j ∈ numbers) :
    numbers = (List.range numbers.length).map fun i => least + Int.ofNat i := by
  induction numbers generalizing least with
  | nil => rfl
  | cons k rest ih =>
    obtain ⟨first,others⟩ := List.pairwise_cons.mp ascending
    have same : k = least := by
      by_contra other
      have below : least < k := lt_of_le_of_ne (above k List.mem_cons_self) (Ne.symm other)
      rcases List.mem_cons.mp (closed k List.mem_cons_self least le_rfl below) with rfl | later
      · exact other rfl
      · exact absurd (first least later) (not_lt.mpr below.le)
    subst same
    have tail := ih (k + 1) others (fun j later => first j later) fun j later i reached below => by
      rcases List.mem_cons.mp (closed j (List.mem_cons_of_mem _ later) i (by omega) below) with rfl | there
      · exact absurd reached (not_le.mpr (Int.lt_succ i))
      · exact there
    rw [List.length_cons,List.range_succ_eq_map,List.map_cons,List.map_map]
    refine List.cons_eq_cons.mpr ⟨(Int.add_zero k).symm,tail.trans (List.map_congr_left fun i _ => ?_)⟩
    change k + 1 + (i : Int) = k + ((i + 1 : Nat) : Int)
    omega

/-- What an attempt has tried is a first index and all below it. -/
theorem own_closed {p : ι} (progress : Progress runOf s p) {k j : Int} (there : k ∈ (own p s.tries).map RunStep.stepIndex) :
    0 ≤ k ∧ (0 ≤ j → j < k → j ∈ (own p s.tries).map RunStep.stepIndex) := by
  obtain ⟨_,h,-,⟨indexes,-⟩ | ⟨-,indexes,-⟩⟩ := progress.order
  · rw [indexes,mem_upTo] at there
    rw [indexes,mem_upTo]
    omega
  · rw [indexes,List.mem_append,mem_upTo,List.mem_singleton] at there
    rw [indexes,List.mem_append,mem_upTo,List.mem_singleton]
    omega

/-- However many attempts execute a run, and however they interleave: its steps are listed as `0`, `1`, … without a gap,
an index is listed once it is tried, and each is the step of the attempt that tried it first. -/
theorem steps_listed (reach : Reaches (step time runOf) Reliable (start jobs) t) (runId : Int) :
    (listRunSteps t.steps runId).map RunStep.stepIndex = upTo (listRunSteps t.steps runId).length ∧
      (∀ tried ∈ t.tries, runOf tried.attempt = runId → tried.step.stepIndex < (listRunSteps t.steps runId).length) ∧
      ∀ row ∈ listRunSteps t.steps runId, ∃ tried, firstTry t.tries runId row.stepIndex = some tried ∧
        runOf tried.attempt = runId ∧ row = tried.step.row row.id := by
  have stored := stored_run reach
  obtain ⟨faithful,progress⟩ := reliable_run reach
  have mine : ∀ tried ∈ t.tries, tried.step.runId = runOf tried.attempt := fun tried there =>
    (progress tried.attempt).ofRun _ (mem_own.mpr ⟨tried,there,rfl,rfl⟩)
  have indexed : ∀ k, k ∈ (listRunSteps t.steps runId).map RunStep.stepIndex ↔
      ∃ tried ∈ t.tries, tried.step.at runId k = true := by
    intro k
    constructor
    · intro there
      obtain ⟨row,listed,rfl⟩ := List.mem_map.mp there
      obtain ⟨kept,rfl⟩ := mem_listRunSteps.mp listed
      obtain ⟨tried,first,-⟩ := faithful.first row kept
      exact ⟨tried,firstTry_mem first⟩
    · rintro ⟨tried,there,same⟩
      obtain ⟨sameRun,sameIndex⟩ := at_iff.mp same
      obtain ⟨row,kept,named⟩ := faithful.complete tried there
      obtain ⟨rowRun,rowIndex⟩ := at_iff.mp named
      exact List.mem_map.mpr ⟨row,mem_listRunSteps.mpr ⟨kept,rowRun.trans sameRun⟩,rowIndex.trans sameIndex⟩
  have below : ∀ k ∈ (listRunSteps t.steps runId).map RunStep.stepIndex, ∀ j,
      0 ≤ k ∧ (0 ≤ j → j < k → j ∈ (listRunSteps t.steps runId).map RunStep.stepIndex) := by
    intro k listed j
    obtain ⟨tried,there,same⟩ := (indexed k).mp listed
    obtain ⟨sameRun,sameIndex⟩ := at_iff.mp same
    have owned : k ∈ (own tried.attempt t.tries).map RunStep.stepIndex :=
      List.mem_map.mpr ⟨tried.step,mem_own.mpr ⟨tried,there,rfl,rfl⟩,sameIndex⟩
    obtain ⟨least,closed⟩ := own_closed (j := j) (progress tried.attempt) owned
    refine ⟨least,fun reached under => (indexed j).mpr ?_⟩
    obtain ⟨step,earlier,index⟩ := List.mem_map.mp (closed reached under)
    obtain ⟨tried',there',sameAttempt,rfl⟩ := mem_own.mp earlier
    refine ⟨tried',there',at_iff.mpr ⟨?_,index⟩⟩
    rw [mine tried' there',sameAttempt,← mine tried there,sameRun]
  have listed := range_of_ascending 0 (List.pairwise_map.mpr (listed_ascending stored))
    (fun k there => (below k there 0).1) fun k there j => (below k there j).2
  have all : (listRunSteps t.steps runId).map RunStep.stepIndex = upTo (listRunSteps t.steps runId).length := by
    rw [listed,List.length_map]
    exact List.map_congr_left fun i _ => Int.zero_add _
  refine ⟨all,fun tried there ofRun => ?_,fun row listed => ?_⟩
  · have index := (indexed tried.step.stepIndex).mpr ⟨tried,there,at_iff.mpr ⟨(mine tried there).trans ofRun,rfl⟩⟩
    rw [all,mem_upTo] at index
    exact index.2
  · obtain ⟨kept,rfl⟩ := mem_listRunSteps.mp listed
    obtain ⟨tried,first,same⟩ := faithful.first row kept
    obtain ⟨there,named⟩ := firstTry_mem first
    exact ⟨tried,first,(mine tried there).symm.trans (at_iff.mp named).1,same⟩

/-- A step that is stored stays as it is. -/
theorem rows_kept {a : Action ι} (taken : step time runOf s a = some t) : s.steps.rows <+: t.steps.rows := by
  have recorded_prefix : ∀ (p : ι) (record : RunStep) (fails : Bool), s.steps.rows <+: (s.record p record fails).1.steps.rows := by
    intro p record fails
    have moved := recorded s p record fails
    generalize s.record p record fails = result at moved ⊢
    cases moved with
    | refused taken => exact List.prefix_refl _
    | stored rows free => exact ⟨_,rows.symm⟩
  cases step_change taken with
  | received | cut | ended => exact List.prefix_refl _
  | noted | failed => exact recorded_prefix _ _ _

theorem strictly_ordered : Std.Irrefl (fun a b : RunStep => a.stepIndex < b.stepIndex) ∧
    Std.Antisymm (fun a b : RunStep => a.stepIndex < b.stepIndex) :=
  ⟨⟨fun _ => lt_irrefl _⟩,⟨fun _ _ below above => absurd below above.asymm⟩⟩

/-- Whatever fails: a listing is in strict order, each of its rows is a step that an attempt at that run tried to store,
and a later listing has the same rows between others. -/
theorem steps_kept (reach : Reachable (step time runOf) (start jobs) s) (later : Reachable (step time runOf) s t) (runId : Int) :
    (listRunSteps s.steps runId).Pairwise (fun a b => a.stepIndex < b.stepIndex) ∧
      (∀ row ∈ listRunSteps s.steps runId, ∃ tried ∈ s.tries, runOf tried.attempt = runId ∧ row = tried.step.row row.id) ∧
      List.Sublist (listRunSteps s.steps runId) (listRunSteps t.steps runId) := by
  have stored := stored_run reach
  have keep : ∀ u a v, s.steps.rows <+: u.steps.rows → True → step time runOf u a = some v → s.steps.rows <+: v.steps.rows :=
    fun _ _ _ before _ taken => before.trans (rows_kept taken)
  have kept := later.invariant keep (List.prefix_refl _)
  have ascending : (listRunSteps s.steps runId).Pairwise fun a b => a.stepIndex < b.stepIndex := listed_ascending stored
  refine ⟨ascending,fun row listed => ?_,?_⟩
  · obtain ⟨there,rfl⟩ := mem_listRunSteps.mp listed
    obtain ⟨tried,before,ofRun,same⟩ := stored.tried row there
    refine ⟨tried,before,?_,same⟩
    rw [← ofRun,same]
    rfl
  · obtain ⟨irreflexive,antisymmetric⟩ := strictly_ordered
    refine List.sublist_of_subperm_of_pairwise (List.subperm_of_subset ascending.nodup fun row listed => ?_) ascending
      (listed_ascending (stored_run (reach.trans later)))
    obtain ⟨there,ofRun⟩ := mem_listRunSteps.mp listed
    exact mem_listRunSteps.mpr ⟨kept.subset there,ofRun⟩

end Listing

section Failures

def zero (_ : Bool) : Int := 0

/-- An attempt ends with an error, with nothing noted. -/
def failed (s : System Bool) (p : Bool) (message : String) (now : Int) : System Bool :=
  (s.record p (executionStep 0 message now) false).1.become p { s.attempt p with concluded := true }

def firstFailed : System Bool := failed (start fun _ => .plain) false "no template" 5

def bothFailed : System Bool := failed firstFailed true "no network" 9

theorem first_failed : Reaches (step toString zero) Reliable (start fun _ => .plain) firstFailed :=
  .snoc (.refl _) (.conclude false (some "no template") 5 false) rfl rfl

theorem both_failed : Reaches (step toString zero) Reliable (start fun _ => .plain) bothFailed :=
  first_failed.snoc (.conclude true (some "no network") 9 false) rfl rfl

theorem two_failures_listed :
    (listRunSteps bothFailed.steps 0).map RunStep.stepIndex = upTo (listRunSteps bothFailed.steps 0).length ∧
      (∀ tried ∈ bothFailed.tries, zero tried.attempt = 0 → tried.step.stepIndex < (listRunSteps bothFailed.steps 0).length) ∧
      ∀ row ∈ listRunSteps bothFailed.steps 0, ∃ tried, firstTry bothFailed.tries 0 row.stepIndex = some tried ∧
        zero tried.attempt = 0 ∧ row = tried.step.row row.id := steps_listed both_failed 0

theorem first_failure_kept : (listRunSteps firstFailed.steps 0).Pairwise (fun a b => a.stepIndex < b.stepIndex) ∧
    (∀ row ∈ listRunSteps firstFailed.steps 0, ∃ tried ∈ firstFailed.tries, zero tried.attempt = 0 ∧ row = tried.step.row row.id) ∧
    List.Sublist (listRunSteps firstFailed.steps 0) (listRunSteps bothFailed.steps 0) :=
  steps_kept first_failed.reachable
    (.snoc (.refl firstFailed) (.conclude true (some "no network") 9 false) trivial rfl) 0

end Failures

section Reported

variable [DecidableEq ι] {time : Int → String} {runOf : ι → Int} {jobs : ι → Job} {s t : System ι} {p : ι}

/-- A row without its id and its times. -/
def RunStep.bare (row : RunStep) : RunStep := { row with id := 0, startedAt := 0, finishedAt := 0 }

/-- The bare row for a request that is finished. -/
def bareRow (runId : Int) : Executor.Event → Option RunStep
  | .finished step method url status bodySize error => some {
      id := 0
      runId
      stepIndex := step
      name := truncateName (method ++ " " ++ url) 200
      status := if error.isSome then .failed else .succeeded
      httpStatus := status.map Int.ofNat
      bodySize
      error := error.map Redact.redact
      startedAt := 0
      finishedAt := 0 }
  | _ => none

/-- The attempt `p` is not cut. -/
def Whole (p : ι) (s : System ι) (a : Action ι) : Prop := Reliable s a ∧ ∀ left, a ≠ .cut p left

/-- What has been tried is what the observer got of the requests, and possibly the step of an attempt that failed. -/
def Consumed (jobs : ι → Job) (runOf : ι → Int) (p : ι) (s : System ι) : Prop :=
  ∃ consumed failures, consumed ++ (s.attempt p).pending = (jobs p).events ∧
    (own p s.tries).map (fun step => (step.row 0).bare) =
      consumed.filterMap (bareRow (runOf p)) ++ failures.map (fun step : RunStep => (step.row 0).bare) ∧
    (failures = [] ∨ (s.attempt p).concluded = true ∧ ∃ message now, failures = [executionStep (runOf p) message now])

theorem receive_bare {observation observation' : RunObservation} {runId started finished : Int} {event : Executor.Event}
    {record : Option RunStep} (fits : Fits event)
    (receives : observation.receive time runId started finished event = (observation',record)) :
    bareRow runId event = record.map fun step => (step.row 0).bare := by
  cases event with
  | finished step method url status bodySize error =>
    simp only [RunObservation.receive,toI64,if_pos fits.1,if_pos fits.2] at receives
    cases receives
    rfl
  | _ => cases receives; rfl

theorem consumed_same (consumed : Consumed jobs runOf p s) (attempt : t.attempt p = s.attempt p)
    (same : own p t.tries = own p s.tries) : Consumed jobs runOf p t := by
  unfold Consumed
  rw [attempt,same]
  exact consumed

/-- The attempt gets its next event. -/
theorem consumed_event (consumed : Consumed jobs runOf p s) (progress : Progress runOf s p) {event : Executor.Event}
    {pending : List Executor.Event} (record : Option RunStep) (here : (s.attempt p).pending = event :: pending)
    (rest : (t.attempt p).pending = pending)
    (tried : own p t.tries = own p s.tries ++ record.toList)
    (bare : bareRow (runOf p) event = record.map fun step => (step.row 0).bare) : Consumed jobs runOf p t := by
  obtain ⟨before,failures,whole,rows,none | ⟨concluded,-⟩⟩ := consumed
  · refine ⟨before ++ [event],[],?_,?_,.inl rfl⟩
    · rw [rest,← whole,here,List.append_assoc,List.singleton_append]
    · rw [tried,List.map_append,rows,none,List.map_nil,List.append_nil,List.append_nil,List.filterMap_append]
      congr 1
      cases record with
      | none => simp [bare]
      | some record => simp [bare]
  · rw [progress.drained concluded] at here
    cases here

theorem consumed_step (consumed : Consumed jobs runOf p s) (progress : Progress runOf s p) {a : Action ι}
    (whole : Whole p s a) (taken : step time runOf s a = some t) : Consumed jobs runOf p t := by
  obtain ⟨reliable,uncut⟩ := whole
  cases step_change taken with
  | @received q _ _ _ event _ _ here receives =>
    by_cases same : p = q
    · subst same
      have fits : Fits event := reliable.2 event (by rw [here]; rfl)
      refine consumed_event consumed progress none here (by rw [become_self]) ?_ (receive_bare fits receives)
      exact (List.append_nil _).symm
    · exact consumed_same consumed (become_other same _) rfl
  | @noted q _ _ fails event pending observation record here receives =>
    obtain ⟨tries,attempts⟩ := record_tries (s := s) q record fails
    have tried : (s.note q ⟨pending,observation,(s.attempt q).concluded⟩ record fails).tries = ⟨q,record⟩ :: s.tries := tries
    by_cases same : p = q
    · subst same
      have fits : Fits event := reliable.2 event (by rw [here]; rfl)
      refine consumed_event consumed progress (some record) here ?_ ?_ (receive_bare fits receives)
      · rw [System.note,become_self]
      · rw [tried,own_self]
        rfl
    · apply consumed_same consumed
      · rw [System.note,become_other same,attempts]
      · rw [tried,own_other (Ne.symm same)]
  | cut q left =>
    by_cases same : p = q
    · exact absurd (congrArg (Action.cut · left) same.symm) (uncut left)
    · exact consumed_same consumed (become_other same _) rfl
  | @ended q _ _ _ unconcluded drained =>
    by_cases same : p = q
    · subst same
      obtain ⟨before,failures,whole,rows,none | ⟨concluded,-⟩⟩ := consumed
      · refine ⟨before,failures,?_,rows,.inl none⟩
        rw [become_self]
        exact whole
      · rw [unconcluded] at concluded
        cases concluded
    · exact consumed_same consumed (become_other same _) rfl
  | @failed q message now fails unconcluded drained empty =>
    obtain ⟨tries,attempts⟩ := record_tries (s := s) q (executionStep (runOf q) message now) fails
    by_cases same : p = q
    · subst same
      obtain ⟨before,failures,whole,rows,none | ⟨concluded,-⟩⟩ := consumed
      · refine ⟨before,[executionStep (runOf p) message now],?_,?_,.inr ⟨?_,message,now,rfl⟩⟩
        · rw [become_self]
          exact whole
        · change (own p (s.record p _ fails).1.tries).map _ = _
          rw [tries,own_self,List.map_append,rows,none,List.map_nil,List.append_nil]
        · rw [become_self]
      · rw [unconcluded] at concluded
        cases concluded
    · apply consumed_same consumed
      · rw [become_other same,attempts]
      · change own p (s.record q _ fails).1.tries = _
        rw [tries,own_other (Ne.symm same)]

theorem consumed_start (jobs : ι → Job) (p : ι) : Consumed jobs runOf p (start jobs) := ⟨[],[],rfl,rfl,.inl rfl⟩

theorem consumed_run (reach : Reaches (step time runOf) (Whole p) (start jobs) t) : Consumed jobs runOf p t := by
  have keep : ∀ s a t, (Consumed jobs runOf p s ∧ Faithful s ∧ ∀ q, Progress runOf s q) → Whole p s a →
      step time runOf s a = some t → Consumed jobs runOf p t ∧ Faithful t ∧ ∀ q, Progress runOf t q := by
    rintro s a t ⟨consumed,faithful,progress⟩ whole taken
    exact ⟨consumed_step consumed (progress p) whole taken,faithful_step faithful whole.1 taken,
      progress_step faithful progress whole.1 taken⟩
  exact (reach.invariant keep ⟨consumed_start jobs p,faithful_start jobs,progress_start jobs⟩).1

/-- The indexes of an attempt are those from `0` on where no other attempt at the run has tried a step. -/
theorem own_indexes (progress : ∀ q, Progress runOf t q)
    (alone : ∀ tried ∈ t.tries, runOf tried.attempt = runOf p → tried.attempt = p) :
    ∃ n, (own p t.tries).map RunStep.stepIndex = upTo n := by
  obtain ⟨_,h,-,⟨indexes,-⟩ | ⟨-,indexes,rfl | ⟨tried,first,theirs⟩⟩⟩ := (progress p).order
  · exact ⟨h,indexes⟩
  · exact ⟨1,indexes⟩
  · obtain ⟨there,named⟩ := firstTry_mem first
    have ofRun := (progress tried.attempt).ofRun _ (mem_own.mpr ⟨tried,there,rfl,rfl⟩)
    exact absurd (alone tried there (ofRun.symm.trans (at_iff.mp named).1)) theirs

/-- The listing of a run is what the only attempt at it has tried. -/
theorem listed_own (stored : Stored runOf t) (faithful : Faithful t) (progress : ∀ q, Progress runOf t q)
    (alone : ∀ tried ∈ t.tries, runOf tried.attempt = runOf p → tried.attempt = p) :
    (listRunSteps t.steps (runOf p)).map RunStep.bare = (own p t.tries).map fun step => (step.row 0).bare := by
  obtain ⟨n,indexes⟩ := own_indexes progress alone
  have distinct : ((own p t.tries).map RunStep.stepIndex).Pairwise (· < ·) := by
    rw [indexes]
    exact List.pairwise_map.mpr (List.pairwise_lt_range.imp fun below => Int.ofNat_lt.mpr below)
  have mine : ∀ row ∈ t.steps.rows, row.runId = runOf p → ∃ step ∈ own p t.tries, row = step.row row.id := by
    intro row kept ofRun
    obtain ⟨tried,first,same⟩ := faithful.first row kept
    obtain ⟨there,named⟩ := firstTry_mem first
    have runs := (progress tried.attempt).ofRun _ (mem_own.mpr ⟨tried,there,rfl,rfl⟩)
    have sameRun : runOf tried.attempt = runOf p := runs.symm.trans ((at_iff.mp named).1.trans ofRun)
    exact ⟨tried.step,mem_own.mpr ⟨tried,there,alone tried there sameRun,rfl⟩,same⟩
  have ascending : ((own p t.tries).map fun step => (step.row 0).bare).Pairwise fun a b => a.stepIndex < b.stepIndex :=
    List.pairwise_map.mpr (List.pairwise_map.mp distinct :)
  obtain ⟨irreflexive,antisymmetric⟩ := strictly_ordered
  refine List.Pairwise.eq_of_mem_iff (List.pairwise_map.mpr (listed_ascending stored)) ascending fun bare => ⟨fun found => ?_,fun found => ?_⟩
  · obtain ⟨row,listed,rfl⟩ := List.mem_map.mp found
    obtain ⟨kept,ofRun⟩ := mem_listRunSteps.mp listed
    obtain ⟨step,there,same⟩ := mine row kept ofRun
    refine List.mem_map.mpr ⟨step,there,?_⟩
    rw [same]
    rfl
  · obtain ⟨step,there,rfl⟩ := List.mem_map.mp found
    have ofRun := (progress p).ofRun step there
    obtain ⟨tried,before,-,rfl⟩ := mem_own.mp there
    obtain ⟨row,kept,named⟩ := faithful.complete tried before
    obtain ⟨rowRun,rowIndex⟩ := at_iff.mp named
    obtain ⟨step,there',same⟩ := mine row kept (rowRun.trans ofRun)
    have index : step.stepIndex = tried.step.stepIndex := by
      rw [← rowIndex,same]
      rfl
    have one : step = tried.step := List.inj_on_of_nodup_map distinct.nodup there' there index
    refine List.mem_map.mpr ⟨row,mem_listRunSteps.mpr ⟨kept,rowRun.trans ofRun⟩,?_⟩
    rw [same,one]
    rfl

/-- An attempt that ended by itself, and was the only one at its run: the steps of the run are the requests that it
reported, in order, or the single step of a failure before any request. -/
theorem steps_reported (reach : Reaches (step time runOf) (Whole p) (start jobs) t)
    (alone : ∀ tried ∈ t.tries, runOf tried.attempt = runOf p → tried.attempt = p) (ended : (t.attempt p).concluded = true) :
    (listRunSteps t.steps (runOf p)).map RunStep.bare = (jobs p).events.filterMap (bareRow (runOf p)) ∨
      (jobs p).events.filterMap (bareRow (runOf p)) = [] ∧ ∃ message now,
        (listRunSteps t.steps (runOf p)).map RunStep.bare = [((executionStep (runOf p) message now).row 0).bare] := by
  have reliable : Reaches (step time runOf) Reliable (start jobs) t := reach.weaken fun _ _ whole => whole.1
  obtain ⟨faithful,progress⟩ := reliable_run reliable
  obtain ⟨consumed,failures,whole,rows,failed⟩ := consumed_run reach
  rw [(progress p).drained ended,List.append_nil] at whole
  rw [listed_own (stored_run reach) faithful progress alone,rows,← whole]
  rcases failed with rfl | ⟨-,message,now,rfl⟩
  · exact .inl (List.append_nil _)
  · -- The index of that step is `0`, so that it is the only one.
    obtain ⟨n,indexes⟩ := own_indexes progress alone
    have last := congrArg (List.map RunStep.stepIndex) rows
    rw [List.map_map,List.map_append] at last
    change (own p t.tries).map RunStep.stepIndex = _ ++ [0] at last
    rw [indexes] at last
    have nothing : consumed.filterMap (bareRow (runOf p)) = [] := by
      cases n with
      | zero => exact absurd last.symm (List.append_ne_nil_of_right_ne_nil _ (List.cons_ne_nil _ _))
      | succ n =>
        rw [upTo_succ] at last
        obtain ⟨front,zero⟩ := List.append_inj' last rfl
        have none : n = 0 := Int.ofNat_eq_zero.mp (List.singleton_inj.mp zero)
        subst none
        exact List.map_eq_nil_iff.mp front.symm
    exact .inr ⟨nothing,message,now,by rw [nothing]; rfl⟩

end Reported

section Visit

/-- A request that finds no host. -/
def visit : Job := .har ⟨Executor.Services.offline,⟨false,none⟩,0,1,1⟩ (.withLimits [] 1 1)
  ⟨[.request ⟨true,none,⟨"GET","http://host/",[],[],none⟩,[],[],[]⟩]⟩

def visitStarted : Executor.Event := .started 0 "GET" "http://host/"

def visitFinished : Executor.Event := .finished 0 "GET" "http://host/" none 0 (some "invalid rendered URL")

set_option maxRecDepth 20000 in
theorem visit_events : visit.events = [visitStarted,visitFinished] := rfl

def visiting : System Bool := start fun p => if p then visit else .plain

def startedVisit : System Bool := visiting.become true ⟨[visitFinished],⟨[],some (0,1),[]⟩,false⟩

def visitStep : RunStep := ⟨0,0,0,"GET http://host/",.failed,none,0,some "invalid rendered URL",1,4⟩

def finishedVisit : System Bool := startedVisit.note true
  ⟨[],⟨[],none,[formatTraceStep toString 0 "GET" "http://host/" none 0 (some "invalid rendered URL") 1 4]⟩,false⟩ visitStep false

def endedVisit : System Bool := finishedVisit.become true { finishedVisit.attempt true with concluded := true }

def ofVisit (p : Bool) : Int := if p then 0 else 1

theorem visit_pending : (visiting.attempt true).pending = [visitStarted,visitFinished] := visit_events

theorem visit_started : step toString ofVisit visiting (.observe true 1 2 false) = some startedVisit := by
  simp only [step,visit_pending]
  rfl

theorem visit_ended : Reaches (step toString ofVisit) (Whole true) visiting endedVisit := by
  have first : Whole true visiting (.observe true 1 2 false) := by
    refine ⟨⟨rfl,?_⟩,nofun⟩
    rw [visit_pending]
    rintro _ ⟨⟩
    exact trivial
  have second : Whole true startedVisit (.observe true 3 4 false) := by
    refine ⟨⟨rfl,?_⟩,nofun⟩
    rintro _ ⟨⟩
    exact ⟨by decide,by decide⟩
  have third : Whole true finishedVisit (.conclude true (some "invalid rendered URL") 5 false) := ⟨rfl,nofun⟩
  exact ((Reaches.refl visiting).snoc _ first visit_started).snoc _ second rfl |>.snoc _ third rfl

theorem visit_reported : (listRunSteps endedVisit.steps 0).map RunStep.bare = visit.events.filterMap (bareRow 0) ∨
    visit.events.filterMap (bareRow 0) = [] ∧ ∃ message now,
      (listRunSteps endedVisit.steps 0).map RunStep.bare = [((executionStep 0 message now).row 0).bare] :=
  steps_reported visit_ended (fun tried there _ => by
    rw [List.mem_singleton.mp (there : tried ∈ [⟨true,visitStep⟩])]) rfl

end Visit

end Qdrust.Scheduler.RunSteps
