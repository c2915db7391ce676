import Qdrust.Scheduler.Steps

/-! The live stream of a run. Each process broadcasts to the clients it serves; a client
reads the run from the store when it comes and whenever it has missed frames. -/
namespace Qdrust.Scheduler.Live
open Library Store

variable {Proc Client : Type}

inductive EventKind where
  | status (status : RunStatus)
  | step
deriving DecidableEq

structure RunEvent where
  runId : Int
  kind : EventKind
deriving DecidableEq

/-- The terminal status an event carries for a run. -/
def RunEvent.terminal (event : RunEvent) (run : Int) : Option RunStatus :=
  if event.runId = run then
    match event.kind with
    | .status status => if status.terminal then some status else none
    | .step => none
  else none

/-- The status a client leaves with when it reads its queue. -/
def ending (run : Int) (queue : List RunEvent) : Option RunStatus := queue.findSome? fun event => event.terminal run

/-- The stream of a client: about to send a snapshot, waiting for events, or closed
behind a terminal frame. `queue` is what has been published and not delivered. -/
inductive Stream (Proc : Type) where
  | closed
  | snapshot (p : Proc) (run : Int) (queue : List RunEvent)
  | waiting (p : Proc) (run : Int) (queue : List RunEvent)
  | ended (run : Int) (status : RunStatus)

namespace Stream

def run : Stream Proc → Option Int
  | .closed => none
  | .snapshot _ run _ | .waiting _ run _ | .ended run _ => some run

/-- Everything that was published has been delivered, and the snapshot before it. -/
def settled : Stream Proc → Bool
  | .waiting _ _ queue => queue.isEmpty
  | .ended _ _ => true
  | _ => false

/-- The status of the last terminal frame. -/
def received : Stream Proc → Option RunStatus
  | .ended _ status => some status
  | _ => none

variable [DecidableEq Proc]

def send (p : Proc) (event : RunEvent) : Stream Proc → Stream Proc
  | .snapshot q run queue => .snapshot q run (if q = p then queue ++ [event] else queue)
  | .waiting q run queue => .waiting q run (if q = p then queue ++ [event] else queue)
  | stream => stream

/-- The process is gone, and its sockets with it. -/
def cut (p : Proc) : Stream Proc → Stream Proc
  | .snapshot q run queue => if q = p then .closed else .snapshot q run queue
  | .waiting q run queue => if q = p then .closed else .waiting q run queue
  | stream => stream

end Stream

/-- The processes with the status each worker has still to publish, and the clients. -/
structure Service (Proc Client : Type) where
  system : System Proc
  owed : Proc → Option (Int × RunStatus)
  stream : Client → Stream Proc

def Service.init (tasks : Table TaskRow TaskRow.id) (clock : Int) : Service Proc Client :=
  ⟨System.init tasks clock,fun _ => none,fun _ => .closed⟩

/-- The status a completion publishes. It is chosen from the outcome alone. -/
def published (outcome : Outcome) : RunStatus :=
  match outcome with
  | .ok _ _ => .succeeded
  | .err _ _ => if outcome.cancelled then .cancelled else .failed

def logging : Phase → Bool
  | .log _ _ => true
  | _ => false

/-- The worker publishes next. A log line is stored before. -/
def Service.publishes (s : Service Proc Client) (p : Proc) : Option (Int × RunStatus) :=
  if logging (s.system.phase p) then none else s.owed p

inductive Action (Proc Client : Type) where
  | system (action : Scheduler.Action Proc)
  | publish (p : Proc)
  | observe (p : Proc)
  | attach (c : Client) (p : Proc) (run : Int)
  | snapshot (c : Client) (read : Bool)
  | deliver (c : Client)
  | lag (c : Client) (missed : Nat)
  | leave (c : Client)

variable [DecidableEq Proc] [DecidableEq Client] (d : Deployment Proc)

namespace Service

def broadcast (s : Service Proc Client) (p : Proc) (event : RunEvent) : Service Proc Client :=
  { s with stream := fun c => (s.stream c).send p event }

def setStream (s : Service Proc Client) (c : Client) (stream : Stream Proc) : Service Proc Client :=
  { s with stream := Function.update s.stream c stream }

/-- What goes with a call of a worker: `finish_run` leaves an event to publish, and a
task that is read is announced as running. -/
def afterCall (s : Service Proc Client) (p : Proc) (system : System Proc) : Service Proc Client :=
  match s.system.phase p with
  | .finish run _ outcome =>
    { s with system, owed := Function.update s.owed p (some (run.id,published outcome)) }
  | .load run =>
    if (system.phase p).task.isSome then broadcast { s with system } p ⟨run.id,.status .running⟩ else { s with system }
  | _ => { s with system }

def stepSystem (s : Service Proc Client) (a : Scheduler.Action Proc) : Option (Service Proc Client) :=
  match a with
  | .proceed p =>
    if (s.publishes p).isSome then none else (step d s.system (.proceed p)).map fun system => s.afterCall p system
  | .crash p => (step d s.system (.crash p)).map fun system =>
    { system, owed := Function.update s.owed p none, stream := fun c => (s.stream c).cut p }
  | a => (step d s.system a).map fun system => { s with system }

def publish (s : Service Proc Client) (p : Proc) : Option (Service Proc Client) :=
  (s.publishes p).map fun event =>
    broadcast { s with owed := Function.update s.owed p none } p ⟨event.1,.status event.2⟩

/-- A step of the execution is reported. -/
def observe (s : Service Proc Client) (p : Proc) : Option (Service Proc Client) :=
  match s.system.phase p with
  | .execute run _ => some (s.broadcast p ⟨run.id,.step⟩)
  | _ => none

def attach (s : Service Proc Client) (c : Client) (p : Proc) (run : Int) : Option (Service Proc Client) :=
  match s.stream c with
  | .closed => (s.system.db.getRun run).map fun _ => s.setStream c (.snapshot p run [])
  | _ => none

/-- `send_run_snapshot`. Where the store cannot be read the stream goes on. -/
def sendRunSnapshot (s : Service Proc Client) (c : Client) (read : Bool) : Option (Service Proc Client) :=
  match s.stream c with
  | .snapshot p run queue => some <| s.setStream c <|
    match (if read then s.system.db.getRun run else none) with
    | some row => if row.status.terminal then .ended run row.status else .waiting p run queue
    | none => .waiting p run queue
  | _ => none

def deliver (s : Service Proc Client) (c : Client) : Option (Service Proc Client) :=
  match s.stream c with
  | .waiting p run (event :: queue) => some <| s.setStream c <|
    match event.terminal run with
    | some status => .ended run status
    | none => .waiting p run queue
  | _ => none

/-- The oldest events are lost, and a snapshot is sent for them. -/
def lag (s : Service Proc Client) (c : Client) (missed : Nat) : Option (Service Proc Client) :=
  match s.stream c with
  | .waiting p run queue =>
    if 0 < missed ∧ missed ≤ queue.length then some (s.setStream c (.snapshot p run (queue.drop missed))) else none
  | _ => none

end Service

def stepLive (s : Service Proc Client) : Action Proc Client → Option (Service Proc Client)
  | .system a => s.stepSystem d a
  | .publish p => s.publish p
  | .observe p => s.observe p
  | .attach c p run => s.attach c p run
  | .snapshot c read => s.sendRunSnapshot c read
  | .deliver c => s.deliver c
  | .lag c missed => s.lag c missed
  | .leave c => some (s.setStream c .closed)

/-- A client that has been given all there is knows how its run has ended. -/
def Informed (s : Service Proc Client) : Prop :=
  ∀ c run, (s.stream c).run = some run → (s.stream c).settled = true →
    ∀ r ∈ s.system.db.runs.rows, r.id = run → r.status.terminal = true → (s.stream c).received = some r.status

def Stream.waits (stream : Stream Proc) (run : Int) : Prop := ∃ p queue, stream = .waiting p run queue

/-- Runs end by an event that says so to all who wait for it. -/
def Announced (s : Service Proc Client) : Action Proc Client → Prop
  | .system (.cancel runId) => ∀ r ∈ s.system.db.runs.rows, r.id = runId → r.status = .pending →
    ∀ c, ¬(s.stream c).waits runId
  | .system (.proceed p) => match s.system.phase p with
    | .recover => ∀ r ∈ s.system.db.runs.rows, r.status.held = true →
      sqlLe r.leaseExpiresAt (timestamp s.system.clock) = true → r.cancelRequested = true → ∀ c, ¬(s.stream c).waits r.id
    | .finish run _ _ => ∀ r ∈ s.system.db.runs.rows, r.id = run.id → r.status.held = true →
      ∀ c q queue, s.stream c = .waiting q run.id queue → q = p
    | _ => True
  | .publish p => ∀ run status, s.owed p = some (run,status) → ∀ r ∈ s.system.db.runs.rows, r.id = run →
    ∀ c queue, ending run queue = none → (s.stream c = .waiting p run queue → r.status = status) ∧
      (s.stream c = .snapshot p run queue → r.status.terminal = true)
  | .snapshot c read => read = false → ∀ p run queue, s.stream c = .snapshot p run queue →
    ∀ r ∈ s.system.db.runs.rows, r.id = run → r.status.terminal = true →
      ending run queue = some r.status ∨ ending run queue = none ∧ ∃ status, s.owed p = some (run,status)
  | _ => True

/-- No worker has ended a run and kept it from a client that has heard all else. -/
def Published (s : Service Proc Client) : Prop :=
  ∀ c p run, s.stream c = .waiting p run [] → ∀ r ∈ s.system.db.runs.rows, r.id = run → r.status.terminal = true →
    ∀ status, s.owed p ≠ some (run,status)

/-- What a client has read or will read, where the store has `status` for its run. -/
def Stream.Told (owed : Proc → Option (Int × RunStatus)) (status : RunStatus) : Stream Proc → Prop
  | .closed => True
  | .snapshot _ run queue => ending run queue ≠ none → status.terminal = true
  | .waiting p run queue => (∀ last, ending run queue = some last → status = last) ∧
    (status.terminal = true → ending run queue = none → ∃ last, owed p = some (run,last))
  | .ended _ last => status = last ∧ status.terminal = true

def Tracked (s : Service Proc Client) : Prop :=
  ∀ c run, (s.stream c).run = some run → run ≤ s.system.db.runs.last ∧
    ∀ r ∈ s.system.db.runs.rows, r.id = run → (s.stream c).Told s.owed r.status

section Streams

omit [DecidableEq Proc]

variable {run : Int} {queue : List RunEvent} {event : RunEvent} {status status' : RunStatus}
variable {owed owed' : Proc → Option (Int × RunStatus)} {stream : Stream Proc} {p : Proc}

@[simp] theorem ending_append : ending run (queue ++ [event]) = (ending run queue).or (event.terminal run) := by
  simp [ending,List.findSome?_append]

theorem terminal_event (ends : event.terminal run = some status) :
    event.runId = run ∧ event.kind = .status status ∧ status.terminal = true := by
  unfold RunEvent.terminal at ends
  split at ends
  next named =>
    split at ends
    next sent carries =>
      split at ends
      next final =>
        cases ends
        exact ⟨named,carries,final⟩
      next => cases ends
    next => cases ends
  next => cases ends

theorem terminal_of_ending (ends : ending run queue = some status) : status.terminal = true := by
  obtain ⟨event,-,last⟩ := List.exists_of_findSome?_eq_some ends
  exact (terminal_event last).2.2

theorem ending_drop (missed : Nat) (ends : ending run (queue.drop missed) ≠ none) : ending run queue ≠ none := by
  intro none
  refine ends ?_
  rw [ending,List.findSome?_eq_none_iff] at none ⊢
  exact fun event member => none event (List.mem_of_mem_drop member)

/-- Nothing changes for a client while its run is active. -/
theorem told_active (alive : status.active = true) (alive' : status'.active = true)
    (told : stream.Told owed status) : stream.Told owed' status' := by
  cases stream with
  | closed => trivial
  | snapshot q run queue =>
    intro ends
    have final := told ends
    simp [RunStatus.terminal,alive] at final
  | waiting q run queue =>
    refine ⟨fun last ends => ?_,fun final => ?_⟩
    · have final := terminal_of_ending ends
      rw [← told.1 last ends] at final
      simp [RunStatus.terminal,alive] at final
    · simp [RunStatus.terminal,alive'] at final
  | ended run last =>
    have final := told.2
    simp [RunStatus.terminal,alive] at final

/-- A run ends, and its event is still to be published to those who wait for it. -/
theorem told_ending (alive : status.active = true) (final : status'.terminal = true)
    (owes : ∀ q run queue, stream = .waiting q run queue → ∃ last, owed' q = some (run,last))
    (told : stream.Told owed status) : stream.Told owed' status' := by
  cases stream with
  | closed => trivial
  | snapshot q run queue => exact fun _ => final
  | waiting q run queue =>
    refine ⟨fun last ends => ?_,fun _ _ => owes q run queue rfl⟩
    have ended := terminal_of_ending ends
    rw [← told.1 last ends] at ended
    simp [RunStatus.terminal,alive] at ended
  | ended run last =>
    have ended := told.2
    simp [RunStatus.terminal,alive] at ended

theorem told_mono (more : ∀ q run last, owed q = some (run,last) → owed' q = some (run,last))
    (told : stream.Told owed status) : stream.Told owed' status := by
  cases stream with
  | closed => trivial
  | snapshot q run queue => exact told
  | waiting q run queue =>
    refine ⟨told.1,fun final open' => ?_⟩
    obtain ⟨last,owes⟩ := told.2 final open'
    exact ⟨last,more q run last owes⟩
  | ended run last => exact told

end Streams

section Ends

variable {d} {s t : System Proc} {a : Scheduler.Action Proc}

omit [DecidableEq Client] in
/-- The three calls that end a run. -/
theorem step_ended (taken : step d s a = some t) {r r' : Run} (before : r ∈ s.db.runs.rows) (after : r' ∈ t.db.runs.rows)
    (same : r'.id = r.id) (alive : r.status.active = true) (final : r'.status.terminal = true) :
    a = .cancel r.id ∧ r.status = .pending ∨
      (∃ p, a = .proceed p ∧ s.phase p = .recover ∧ r.status.held = true ∧
        sqlLe r.leaseExpiresAt (timestamp s.clock) = true ∧ r.cancelRequested = true) ∨
      ∃ p run task outcome, a = .proceed p ∧ s.phase p = .finish run task outcome ∧ r.id = run.id ∧ r.status.held = true := by
  have ongoing : r.status.terminal = false := by rwa [RunStatus.terminal_eq_false]
  cases step_row taken before after same with
  | kept =>
    rw [ongoing] at final
    cases final
  | worked p _ _ row =>
    generalize phase : s.phase p = current at row
    cases row with
    | kept =>
      rw [ongoing] at final
      cases final
    | recovered _ held expired =>
      refine .inr (.inl ⟨p,rfl,phase,held,expired,?_⟩)
      by_contra wanted
      simp [Run.recovered,wanted,RunStatus.terminal,RunStatus.active] at final
    | claimed => cases final
    | started => cases final
    | finished run task outcome _ named held => exact .inr (.inr ⟨p,run,task,outcome,rfl,phase,named,held⟩)
  | cancelled =>
    refine .inl ⟨rfl,?_⟩
    by_contra stays
    simp [Run.cancelAsked,stays,ongoing] at final
  | renewed =>
    rw [show (r.renewed _).status = r.status from rfl,ongoing] at final
    cases final

/-- A run that is older than the step keeps its status, unless it was active. -/
theorem step_status (taken : step d s a = some t) {run : Int} (bound : run ≤ s.db.runs.last) {r' : Run}
    (after : r' ∈ t.db.runs.rows) (named : r'.id = run) :
    ∃ r ∈ s.db.runs.rows, r'.id = r.id ∧ (r'.status = r.status ∨ r.status.active = true) := by
  rcases step_origin taken after with ⟨r,before,same⟩ | new
  · refine ⟨r,before,same,?_⟩
    have moved := (step_lawful taken).evolves.related before after same
    cases alive : r.status.active with
    | false => exact .inl (moved.terminal (by simp [RunStatus.terminal,alive]))
    | true => exact .inr rfl
  · have fresh := new.id
    omega

end Ends

variable {d} {s t : Service Proc Client} {p : Proc} {c : Client}

omit [DecidableEq Proc] [DecidableEq Client] in
theorem tracked_init (tasks : Table TaskRow TaskRow.id) (clock : Int) :
    Tracked (Service.init tasks clock : Service Proc Client) := by
  rintro _ _ ⟨⟩

omit [DecidableEq Client] in
/-- A step of the processes, where those who wait for a run that ends are owed its event. -/
theorem tracked_moved {a : Scheduler.Action Proc} (tracked : Tracked s) (taken : step d s.system a = some t.system)
    (streams : t.stream = s.stream) (more : ∀ q run last, s.owed q = some (run,last) → t.owed q = some (run,last))
    (owes : ∀ r ∈ s.system.db.runs.rows, ∀ r' ∈ t.system.db.runs.rows, r'.id = r.id → r.status.active = true →
      r'.status.terminal = true → ∀ c q queue, s.stream c = .waiting q r.id queue → ∃ last, t.owed q = some (r.id,last)) :
    Tracked t := by
  intro c run watches
  rw [streams] at watches ⊢
  obtain ⟨bound,told⟩ := tracked c run watches
  refine ⟨Int.le_trans bound (step_lawful taken).evolves.grows,fun r' after named => ?_⟩
  obtain ⟨r,before,same,status⟩ := step_status taken bound after named
  have named' : r.id = run := same.symm.trans named
  have told := told r before named'
  rcases status with kept | alive
  · rw [kept]
    exact told_mono more told
  · cases final : r'.status.terminal with
    | false => exact told_active alive (RunStatus.terminal_eq_false.mp final) told
    | true =>
      refine told_ending alive final (fun q run' queue waiting => ?_) told
      rw [waiting] at watches
      cases watches
      subst named'
      exact owes r before r' after same alive final c q queue waiting

omit [DecidableEq Client] in
@[simp] theorem run_send (stream : Stream Proc) (event : RunEvent) : (stream.send p event).run = stream.run := by
  cases stream <;> rfl

omit [DecidableEq Client] in
/-- An event that ends no run is no news. -/
theorem tracked_broadcast {event : RunEvent} (idle : ∀ run, event.terminal run = none) (tracked : Tracked s) :
    Tracked (s.broadcast p event) := by
  intro c run watches
  simp only [Service.broadcast,run_send] at watches
  obtain ⟨bound,told⟩ := tracked c run watches
  refine ⟨bound,fun r there named => ?_⟩
  have told := told r there named
  simp only [Service.broadcast]
  cases stream : s.stream c with
  | closed => trivial
  | snapshot q run queue =>
    rw [stream] at told
    by_cases here : q = p
    · simpa [Stream.send,here,Stream.Told,idle] using told
    · simpa [Stream.send,here] using told
  | waiting q run queue =>
    rw [stream] at told
    by_cases here : q = p
    · subst here
      simpa [Stream.send,Stream.Told,idle] using told
    · simpa [Stream.send,here] using told
  | ended run last =>
    rw [stream] at told
    exact told

omit [DecidableEq Client] in
theorem afterCall_cases {system : System Proc} (working : ∀ run task outcome, s.system.phase p ≠ .finish run task outcome) :
    s.afterCall p system = { s with system } ∨
      ∃ run, s.afterCall p system = Service.broadcast { s with system } p ⟨run,.status .running⟩ := by
  unfold Service.afterCall
  split
  next run task outcome finishing => exact absurd finishing (working run task outcome)
  next run loading =>
    split
    · exact .inr ⟨run.id,rfl⟩
    · exact .inl rfl
  next => exact .inl rfl

omit [DecidableEq Client] in
theorem tracked_proceed (tracked : Tracked s) (announced : Announced s (.system (.proceed p)))
    (taken : s.stepSystem d (.proceed p) = some t) : Tracked t := by
  simp only [Service.stepSystem] at taken
  split at taken
  · cases taken
  next idle =>
  obtain ⟨system,called,rfl⟩ := Option.map_eq_some_iff.mp taken
  simp only [Announced] at announced
  by_cases finishing : ∃ run task outcome, s.system.phase p = .finish run task outcome
  · obtain ⟨run,task,outcome,finishing⟩ := finishing
    have settled : s.owed p = none := by
      simpa [Service.publishes,finishing,logging] using idle
    simp only [Service.afterCall,finishing] at announced ⊢
    refine tracked_moved (t := ⟨system,_,_⟩) tracked called rfl ?_ ?_
    · intro q run' last owes
      have other : q ≠ p := by
        rintro rfl
        rw [settled] at owes
        cases owes
      exact (Function.update_of_ne other _ _).trans owes
    · intro r before r' after same alive final c q queue waiting
      rcases step_ended called before after same alive final with ⟨⟨⟩,-⟩ | ⟨_,⟨⟩,recovering,-⟩ | ⟨_,_,_,_,⟨⟩,ends,named,held⟩
      · rw [finishing] at recovering
        cases recovering
      · cases finishing.symm.trans ends
        cases announced r before named held c q queue (named ▸ waiting)
        rw [named]
        exact ⟨_,Function.update_self ..⟩
  · push Not at finishing
    have moved : Tracked { s with system } := by
      refine tracked_moved tracked called rfl (fun _ _ _ owes => owes) ?_
      intro r before r' after same alive final c q queue waiting
      rcases step_ended called before after same alive final with
        ⟨⟨⟩,-⟩ | ⟨_,⟨⟩,recovering,held,expired,wanted⟩ | ⟨_,run,task,outcome,⟨⟩,ends,-⟩
      · simp only [recovering] at announced
        exact absurd ⟨q,queue,waiting⟩ (announced r before held expired wanted c)
      · exact absurd ends (finishing run task outcome)
    rcases afterCall_cases finishing with same | ⟨run,same⟩
    · rw [same]
      exact moved
    · rw [same]
      refine tracked_broadcast (fun run' => ?_) moved
      simp [RunEvent.terminal,RunStatus.terminal,RunStatus.active]

omit [DecidableEq Proc] in
/-- A step of a client's stream. -/
theorem tracked_stream {stream : Stream Proc} (tracked : Tracked s)
    (told : ∀ run, stream.run = some run → run ≤ s.system.db.runs.last ∧
      ∀ r ∈ s.system.db.runs.rows, r.id = run → stream.Told s.owed r.status) :
    Tracked (s.setStream c stream) := by
  intro c' run watches
  simp only [Service.setStream] at watches ⊢
  by_cases same : c' = c
  · subst same
    rw [Function.update_self] at watches ⊢
    exact told run watches
  · rw [Function.update_of_ne same] at watches ⊢
    exact tracked c' run watches

omit [DecidableEq Client] in
theorem tracked_crash (tracked : Tracked s) (taken : s.stepSystem d (.crash p) = some t) : Tracked t := by
  simp only [Service.stepSystem] at taken
  obtain ⟨system,ended,rfl⟩ := Option.map_eq_some_iff.mp taken
  cases ended
  intro c run watches
  have kept : (s.stream c).cut p = s.stream c ∧ ∀ queue, s.stream c ≠ .waiting p run queue := by
    cases stream : s.stream c with
    | closed => simp [Stream.cut]
    | ended run last => simp [Stream.cut]
    | snapshot q run queue =>
      by_cases same : q = p
      · simp [stream,Stream.cut,same,Stream.run] at watches
      · simp [Stream.cut,same]
    | waiting q run queue =>
      by_cases same : q = p
      · simp [stream,Stream.cut,same,Stream.run] at watches
      · simp [Stream.cut,same]
  obtain ⟨kept,elsewhere⟩ := kept
  simp only [kept] at watches ⊢
  obtain ⟨bound,told⟩ := tracked c run watches
  refine ⟨bound,fun r there named => ?_⟩
  have told := told r there named
  cases stream : s.stream c with
  | closed => trivial
  | snapshot q run' queue =>
    rw [stream] at told
    exact told
  | ended run' last =>
    rw [stream] at told
    exact told
  | waiting q run' queue =>
    rw [stream] at told watches
    cases watches
    have other : q ≠ p := by
      rintro rfl
      exact elsewhere queue stream
    refine ⟨told.1,fun final open' => ?_⟩
    obtain ⟨last,owes⟩ := told.2 final open'
    exact ⟨last,(Function.update_of_ne other _ _).trans owes⟩

section Publish

variable {run : Int} {status status' : RunStatus} {owed : Proc → Option (Int × RunStatus)} {stream : Stream Proc}

/-- What is owed is sent to the clients of the process, where it says what the store does. -/
theorem told_published (owes : owed p = some (run,status))
    (heard : ∀ queue, ending run queue = none → (stream = .waiting p run queue → status' = status) ∧
      (stream = .snapshot p run queue → status'.terminal = true))
    (told : stream.Told owed status') :
    (stream.send p ⟨run,.status status⟩).Told (Function.update owed p none) status' := by
  cases stream with
  | closed => trivial
  | ended run' last => exact told
  | snapshot q run' queue =>
    by_cases here : q = p
    · subst here
      simp only [Stream.send,if_pos,Stream.Told,ending_append]
      intro ends
      cases earlier : ending run' queue with
      | some last =>
        refine told ?_
        rw [earlier]
        exact Option.some_ne_none last
      | none =>
        rw [earlier,Option.none_or] at ends
        obtain ⟨last,ends⟩ := Option.ne_none_iff_exists'.mp ends
        obtain ⟨rfl,-,-⟩ := terminal_event ends
        exact (heard queue earlier).2 rfl
    · simp only [Stream.send,if_neg here]
      exact told
  | waiting q run' queue =>
    by_cases here : q = p
    · subst here
      simp only [Stream.send,if_pos,Stream.Told,ending_append]
      cases earlier : ending run' queue with
      | some last =>
        rw [Option.some_or]
        refine ⟨fun last' ends => told.1 last' (earlier.trans ends),fun _ open' => ?_⟩
        cases open'
      | none =>
        rw [Option.none_or]
        refine ⟨fun last ends => ?_,fun final open' => ?_⟩
        · obtain ⟨rfl,carries,-⟩ := terminal_event ends
          cases carries
          exact (heard queue earlier).1 rfl
        · obtain ⟨last,owes'⟩ := told.2 final earlier
          cases owes.symm.trans owes'
          have same := (heard queue earlier).1 rfl
          simp [RunEvent.terminal,← same,final] at open'
    · simp only [Stream.send,if_neg here]
      refine ⟨told.1,fun final open' => ?_⟩
      obtain ⟨last,owes'⟩ := told.2 final open'
      exact ⟨last,(Function.update_of_ne here _ _).trans owes'⟩

end Publish

omit [DecidableEq Client] in
theorem tracked_publish (tracked : Tracked s) (announced : Announced s (.publish p)) (taken : s.publish p = some t) :
    Tracked t := by
  obtain ⟨⟨run,status⟩,publishes,rfl⟩ := Option.map_eq_some_iff.mp taken
  have owes : s.owed p = some (run,status) := by
    unfold Service.publishes at publishes
    split at publishes
    · cases publishes
    · exact publishes
  intro c run' watches
  simp only [Service.broadcast,run_send] at watches ⊢
  obtain ⟨bound,told⟩ := tracked c run' watches
  refine ⟨bound,fun r there named => told_published owes (fun queue open' => ?_) (told r there named)⟩
  have heard := announced run status owes r there
  constructor
  · intro stream
    rw [stream] at watches
    cases watches
    exact (heard named c queue open').1 stream
  · intro stream
    rw [stream] at watches
    cases watches
    exact (heard named c queue open').2 stream

omit [DecidableEq Proc] in
theorem tracked_snapshot {read : Bool} (tracked : Tracked s) (announced : Announced s (.snapshot c read))
    (taken : s.sendRunSnapshot c read = some t) : Tracked t := by
  unfold Service.sendRunSnapshot at taken
  split at taken
  next p run queue stream =>
    cases taken
    obtain ⟨bound,told⟩ := tracked c run (by rw [stream]; rfl)
    rw [stream] at told
    have goesOn : (∀ r ∈ s.system.db.runs.rows, r.id = run → r.status.terminal = true →
        ending run queue = some r.status ∨ ending run queue = none ∧ ∃ status, s.owed p = some (run,status)) →
        Tracked (s.setStream c (.waiting p run queue)) := by
      intro known
      refine tracked_stream tracked ?_
      rintro _ ⟨⟩
      refine ⟨bound,fun r there named => ⟨fun last ends => ?_,fun final open' => ?_⟩⟩
      · have final := told r there named (ends ▸ Option.some_ne_none last)
        rcases known r there named final with same | ⟨none,-⟩
        · exact Option.some.inj (same.symm.trans ends)
        · cases none.symm.trans ends
      · rcases known r there named final with same | ⟨-,owes⟩
        · cases open'.symm.trans same
        · exact owes
    cases read with
    | false => exact goesOn (announced rfl p run queue stream)
    | true =>
      simp only [if_true]
      split
      next row found =>
        obtain ⟨r,there,rfl⟩ := Option.map_eq_some_iff.mp found
        obtain ⟨member,named⟩ := (Table.find_eq_some _).mp there
        have sole : ∀ r' ∈ s.system.db.runs.rows, r'.id = run → r' = r := fun r' there' named' =>
          s.system.db.runs.key_unique there' member (named'.trans named.symm)
        split
        next final =>
          refine tracked_stream tracked ?_
          rintro _ ⟨⟩
          refine ⟨bound,fun r' there' named' => ?_⟩
          cases sole r' there' named'
          exact ⟨rfl,final⟩
        next ongoing =>
          refine goesOn fun r' there' named' final => ?_
          cases sole r' there' named'
          exact absurd final ongoing
      next missing =>
        refine goesOn fun r there named _ => ?_
        have found := (Table.find_eq_some s.system.db.runs).mpr ⟨there,named⟩
        simp [Db.getRun,found] at missing
  next => cases taken

omit [DecidableEq Proc] in
theorem tracked_deliver (tracked : Tracked s) (taken : s.deliver c = some t) : Tracked t := by
  unfold Service.deliver at taken
  split at taken
  next p run event queue stream =>
    cases taken
    obtain ⟨bound,told⟩ := tracked c run (by rw [stream]; rfl)
    rw [stream] at told
    refine tracked_stream tracked ?_
    split
    next status ends =>
      rintro _ ⟨⟩
      exact ⟨bound,fun r there named => by
        have same := (told r there named).1 status (by simp [ending,ends])
        exact ⟨same,same ▸ (terminal_event ends).2.2⟩⟩
    next idle =>
      rintro _ ⟨⟩
      have rest : ending run (event :: queue) = ending run queue := by simp [ending,idle]
      refine ⟨bound,fun r there named => ?_⟩
      have told := told r there named
      simp only [Stream.Told,rest] at told
      exact told
  next => cases taken

omit [DecidableEq Proc] in
theorem tracked_lag {missed : Nat} (tracked : Tracked s) (taken : s.lag c missed = some t) : Tracked t := by
  unfold Service.lag at taken
  split at taken
  next p run queue stream =>
    split at taken
    next =>
      cases taken
      obtain ⟨bound,told⟩ := tracked c run (by rw [stream]; rfl)
      rw [stream] at told
      refine tracked_stream tracked ?_
      rintro _ ⟨⟩
      refine ⟨bound,fun r there named left => ?_⟩
      obtain ⟨last,ends⟩ := Option.ne_none_iff_exists'.mp (ending_drop missed left)
      rw [(told r there named).1 last ends]
      exact terminal_of_ending ends
    next => cases taken
  next => cases taken

omit [DecidableEq Proc] in
theorem tracked_attach {run : Int} (tracked : Tracked s) (taken : s.attach c p run = some t) : Tracked t := by
  unfold Service.attach at taken
  split at taken
  next =>
    obtain ⟨row,found,rfl⟩ := Option.map_eq_some_iff.mp taken
    obtain ⟨r,there,rfl⟩ := Option.map_eq_some_iff.mp found
    obtain ⟨member,named⟩ := (Table.find_eq_some _).mp there
    refine tracked_stream tracked ?_
    rintro _ ⟨⟩
    exact ⟨named ▸ s.system.db.runs.bounded r member,fun r there named none => absurd rfl none⟩
  next => cases taken

omit [DecidableEq Client] in
theorem tracked_quiet {a : Scheduler.Action Proc} {system : System Proc} (tracked : Tracked s)
    (announced : Announced s (.system a)) (calm : ∀ p, a ≠ .proceed p) (called : step d s.system a = some system) :
    Tracked { s with system } := by
  refine tracked_moved tracked called rfl (fun _ _ _ owes => owes) ?_
  intro r before r' after same alive final c q queue waiting
  rcases step_ended called before after same alive final with ⟨rfl,pending⟩ | ⟨p,rfl,-⟩ | ⟨p,_,_,_,rfl,-⟩
  · exact absurd ⟨q,queue,waiting⟩ (announced r before rfl pending c)
  · exact absurd rfl (calm p)
  · exact absurd rfl (calm p)

theorem tracked_step {a : Action Proc Client} (tracked : Tracked s) (announced : Announced s a)
    (taken : stepLive d s a = some t) : Tracked t := by
  cases a with
  | system a =>
    by_cases calm : (∀ p, a ≠ .proceed p) ∧ ∀ p, a ≠ .crash p
    · have quiet : (step d s.system a).map (fun system => { s with system }) = some t := by
        cases a with
        | proceed p => exact absurd rfl (calm.1 p)
        | crash p => exact absurd rfl (calm.2 p)
        | _ => exact taken
      obtain ⟨system,called,rfl⟩ := Option.map_eq_some_iff.mp quiet
      exact tracked_quiet tracked announced calm.1 called
    · cases a with
      | proceed p => exact tracked_proceed tracked announced taken
      | crash p => exact tracked_crash (d := d) tracked taken
      | _ => exact absurd ⟨by simp,by simp⟩ calm
  | publish p => exact tracked_publish tracked announced taken
  | observe p =>
    simp only [stepLive,Service.observe] at taken
    split at taken
    next run task executing =>
      cases taken
      exact tracked_broadcast (fun run => by simp [RunEvent.terminal]) tracked
    next => cases taken
  | attach c p run => exact tracked_attach tracked taken
  | snapshot c read => exact tracked_snapshot tracked announced taken
  | deliver c => exact tracked_deliver tracked taken
  | lag c missed => exact tracked_lag tracked taken
  | leave c =>
    cases taken
    refine tracked_stream tracked ?_
    rintro _ ⟨⟩

omit [DecidableEq Proc] [DecidableEq Client] in
theorem informed_iff (tracked : Tracked s) : Informed s ↔ Published s := by
  constructor
  · intro informed c p run stream r there named final status owes
    have received := informed c run (by rw [stream]; rfl) (by rw [stream]; rfl) r there named final
    rw [stream] at received
    cases received
  · intro published c run watches settled r there named final
    have told := (tracked c run watches).2 r there named
    cases stream : s.stream c with
    | closed =>
      rw [stream] at watches
      cases watches
    | snapshot p run' queue =>
      rw [stream] at settled
      cases settled
    | waiting p run' queue =>
      rw [stream] at watches settled told
      cases watches
      cases List.isEmpty_iff.mp settled
      obtain ⟨status,owes⟩ := told.2 final rfl
      exact absurd owes (published c p run stream r there named final status)
    | ended run' last =>
      rw [stream] at told
      exact congrArg some told.1.symm

/-- In every run of the server in which runs end by events that say so to all who wait, a
client that has heard everything knows the end, unless the event is about to be published. -/
theorem informed_of_announced (tasks : Table TaskRow TaskRow.id) (clock : Int)
    (reach : Transition.Reaches (stepLive d) Announced (Service.init tasks clock : Service Proc Client) s) :
    Informed s ↔ Published s :=
  informed_iff (reach.invariant (fun _ _ _ tracked announced taken => tracked_step tracked announced taken)
    (tracked_init tasks clock))

/-- A run that is streamed to one client up to its execution. -/
def streamed : List (Action Unit Unit) :=
  [.system (.enqueue 1),.attach () () 1,.snapshot () true,.system (.proceed ()),.system (.proceed ()),
    .system (.proceed ()),.system (.proceed ()),.deliver ()]

def succeeds : List (Action Unit Unit) :=
  [.system (.complete () (.ok 200 none)),.system (.proceed ()),.system (.proceed ()),.publish (),.deliver ()]

/-- What the client has heard, and the runs. -/
def heard (s : Service Unit Unit) : Bool × Option Int × Option RunStatus × List (Int × RunStatus) :=
  ((s.stream ()).settled,(s.stream ()).run,(s.stream ()).received,s.system.db.runs.rows.map fun r => (r.id,r.status))

/-- `Announced`, for one process. -/
def announcedBy (s : Service Unit Unit) : Action Unit Unit → Bool
  | .system (.cancel _) => false
  | .system (.proceed ()) => match s.system.phase () with
    | .recover => s.system.db.runs.rows.all fun r => !r.status.held
    | _ => true
  | .publish () => (s.owed ()).all fun event =>
    event.2.terminal && s.system.db.runs.rows.all fun r => r.status == event.2
  | .snapshot _ read => read
  | _ => true

theorem announced_of_check (s : Service Unit Unit) (a : Action Unit Unit) (checked : announcedBy s a = true) :
    Announced s a := by
  cases a with
  | system a =>
    cases a with
    | cancel runId => cases checked
    | proceed p =>
      simp only [announcedBy,Announced] at checked ⊢
      split
      next recovering =>
        intro r there held
        rw [recovering] at checked
        have free := List.all_eq_true.mp checked r there
        rw [held] at free
        cases free
      next =>
        intros
        trivial
      next => trivial
    | _ => trivial
  | publish p =>
    intro run status owes r there named c queue _
    simp only [announcedBy,show s.owed () = some (run,status) from owes,Option.all_some,Bool.and_eq_true] at checked
    have same : r.status = status := by simpa using List.all_eq_true.mp checked.2 r there
    exact ⟨fun _ => same,fun _ => same ▸ checked.1⟩
  | snapshot c read =>
    rintro rfl
    cases checked
  | _ => trivial

/-- The client of a run that succeeds hears of it. -/
theorem informed_of_success : ∃ s : Service Unit Unit,
    Transition.exec (stepLive single) (Service.init (oneTask checkIn) 0) (streamed ++ succeeds) = some s ∧
      heard s = (true,some 1,some .succeeded,[(1,.succeeded)]) ∧ Informed s := by
  have ran : (Transition.exec (stepLive single) (Service.init (oneTask checkIn) 0) (streamed ++ succeeds)).map heard =
      some (true,some 1,some .succeeded,[(1,.succeeded)]) := by decide +kernel
  obtain ⟨s,ran,summary⟩ := Option.map_eq_some_iff.mp ran
  refine ⟨s,ran,summary,(informed_of_announced (oneTask checkIn) 0 (Transition.reaches_of_exec ran ?_)).mpr ?_⟩
  · exact Transition.allowed_of_check announced_of_check (by decide +kernel)
  · intro c p run stream
    have received : (s.stream ()).received = some .succeeded := congrArg (fun summary => summary.2.2.1) summary
    rw [show s.stream () = .waiting p run [] from stream] at received
    cases received

theorem uninformed {s : Service Unit Unit} {received : Option RunStatus} (other : received ≠ some .cancelled)
    (summary : heard s = (true,some 1,received,[(1,.cancelled)])) : ¬Informed s := by
  intro informed
  have rows : s.system.db.runs.rows.map (fun r => (r.id,r.status)) = [(1,.cancelled)] :=
    congrArg (fun summary => summary.2.2.2) summary
  obtain ⟨r,there,same⟩ := List.mem_map.mp (rows ▸ List.mem_singleton_self _)
  have known := informed () 1 (congrArg (fun summary => summary.2.1) summary) (congrArg (fun summary => summary.1) summary)
    r there (congrArg Prod.fst same) (by rw [show r.status = .cancelled from congrArg Prod.snd same]; rfl)
  refine other ((congrArg (fun summary => summary.2.2.1) summary).symm.trans (known.trans ?_))
  exact congrArg (some ∘ Prod.snd) same

/-- A client waits for a run that was cancelled before it was claimed; and one is told that
a run has succeeded which is stored as cancelled. -/
theorem cancellation_untold :
    (∃ s : Service Unit Unit, Transition.exec (stepLive single) (Service.init (oneTask checkIn) 0)
      [.system (.enqueue 1),.attach () () 1,.snapshot () true,.system (.cancel 1)] = some s ∧
      heard s = (true,some 1,none,[(1,.cancelled)]) ∧ ¬Informed s) ∧
    ∃ s : Service Unit Unit, Transition.exec (stepLive single) (Service.init (oneTask checkIn) 0)
      (streamed ++ .system (.cancel 1) :: succeeds) = some s ∧
      heard s = (true,some 1,some .succeeded,[(1,.cancelled)]) ∧ ¬Informed s := by
  constructor
  · have ran : (Transition.exec (stepLive single) (Service.init (oneTask checkIn) 0 : Service Unit Unit)
        [.system (.enqueue 1),.attach () () 1,.snapshot () true,.system (.cancel 1)]).map heard =
        some (true,some 1,none,[(1,.cancelled)]) := by decide +kernel
    obtain ⟨s,ran,summary⟩ := Option.map_eq_some_iff.mp ran
    exact ⟨s,ran,summary,uninformed (by simp) summary⟩
  · have ran : (Transition.exec (stepLive single) (Service.init (oneTask checkIn) 0)
        (streamed ++ .system (.cancel 1) :: succeeds)).map heard =
        some (true,some 1,some .succeeded,[(1,.cancelled)]) := by decide +kernel
    obtain ⟨s,ran,summary⟩ := Option.map_eq_some_iff.mp ran
    exact ⟨s,ran,summary,uninformed (by simp) summary⟩

end Qdrust.Scheduler.Live
